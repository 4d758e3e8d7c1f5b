import CallProbe.Layout.Doc
import CallProbe.Probe.Plan

/-! # Errors

What can go wrong, and the words for it. -/

namespace CallProbe.Probe

open Source

/-- The steps that a function goes through. -/
inductive Stage where
  | parsing
  | stripping
  | transforming
  | recompiling
deriving DecidableEq, Repr

def Stage.text : Stage → String
  | parsing => "parsing"
  | stripping => "stripping marker"
  | transforming => "transforming"
  | recompiling => "recompiling"

/-- Why a step failed. -/
inductive Cause where
  | unreadable
  /-- The marker to strip is not on the function. -/
  | markerNotFound (marker : Option Marker)
  | constFn
deriving DecidableEq, Repr

def Cause.message : Cause → String
  | unreadable => "syntax error"
  | markerNotFound m => "marker `#[" ++ (m.map Marker.name).getD "marker" ++ "]` not found on the function"
  | constFn => "calls inside a `const fn` cannot be wrapped"

/-- Why a transform stops: it is refused, generated code could not be read back, or a call cannot be shown. -/
inductive Halt where
  | refused (cause : Cause)
  | broken (fault : Fault)
  | unprintable (part : Layout.Unprintable)
deriving DecidableEq, Repr

def Halt.message : Halt → String
  | refused c => c.message
  | broken f => f.message
  | unprintable u => u.message

/-- What can go wrong. -/
inductive Error where
  | sourceUnavailable (function : String)
  | configuration (error : PlanError)
  | probeFailed (function : String) (stage : Stage) (cause : Cause)
  | noTargets (what : String)
  | unparsable (path : String)
  | unreadable (path reason : String)
  | buildFailed (reason : String)
  | runFailed (reason : String)
  | noBinary
  | io (reason : String)
deriving DecidableEq, Repr

def Error.message : Error → String
  | sourceUnavailable f => "no source available for `" ++ f ++ "`: it has no body"
  | configuration e => "invalid configuration: " ++ e.fault.message
  | probeFailed f s c => "failed to rewrite `" ++ f ++ "` (" ++ s.text ++ "): " ++ c.message
  | noTargets w => "no functions matched " ++ w
  | unparsable p => "failed to parse " ++ p
  | unreadable p r => "failed to read " ++ p ++ ": " ++ r
  | buildFailed r => "build failed: " ++ r
  | runFailed r => "run failed: " ++ r
  | noBinary => "no instrumented binary found -- run `shallow build` first"
  | io r => r

/-- How a run ends early: with an error, because generated code could not be read back, or because a part of a
    file cannot be laid out. -/
inductive Failure where
  | error (error : Error)
  | broken (fault : Fault)
  | unprintable (part : Layout.Unprintable)
deriving DecidableEq, Repr

def Failure.message : Failure → String
  | error e => e.message
  | broken f => f.message
  | unprintable u => u.message

end CallProbe.Probe
