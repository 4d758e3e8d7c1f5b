import CallProbe.Call.Target

/-! # Calls of the prelude

Names that are in scope without an import. A call is recognised by its name alone, so a method `len` of
any type counts. -/

namespace CallProbe.Call

/-- Functions and constructors of the prelude, without the crate that holds them. -/
def preludePaths : List (List String) :=
  [["Some"], ["Ok"], ["Err"], ["Option", "Some"], ["Result", "Ok"], ["Result", "Err"], ["drop"],
    ["mem", "drop"], ["mem", "take"], ["mem", "replace"], ["mem", "swap"], ["Box", "new"],
    ["Box", "pin"], ["Vec", "new"], ["Vec", "with_capacity"], ["String", "new"],
    ["String", "with_capacity"], ["String", "from"], ["Default", "default"], ["Rc", "new"],
    ["Rc", "clone"], ["Arc", "new"], ["Arc", "clone"], ["Cell", "new"], ["RefCell", "new"]]

/-- Methods of the prelude's traits and types. -/
def preludeMethods : List String :=
  ["clone", "clone_from", "to_string", "to_owned", "from", "into", "try_from", "try_into", "as_ref",
    "as_mut", "default", "eq", "ne", "cmp", "partial_cmp", "lt", "le", "gt", "ge", "max", "min", "clamp",
    "into_iter", "next", "next_back", "len", "extend", "map", "filter", "filter_map", "flat_map",
    "flatten", "collect", "sum", "product", "count", "fold", "for_each", "enumerate", "zip", "unzip",
    "rev", "chain", "take", "skip", "take_while", "skip_while", "step_by", "peekable", "cloned",
    "copied", "any", "all", "find", "position", "last", "nth", "inspect", "partition", "by_ref",
    "max_by", "min_by", "max_by_key", "min_by_key", "unwrap", "expect", "unwrap_or", "unwrap_or_else",
    "unwrap_or_default", "ok", "err", "ok_or", "ok_or_else", "map_err", "and_then", "is_some", "is_none",
    "is_ok", "is_err", "as_deref", "iter", "iter_mut", "push", "push_str", "pop", "insert", "remove",
    "get", "get_mut", "contains", "is_empty", "as_str", "as_slice", "as_bytes", "to_vec"]

/-- A path without the standard crate in front. -/
def withoutStdCrate : List String → List String
  | c :: s :: rest => if ["std", "core", "alloc"].contains c then s :: rest else c :: s :: rest
  | segments => segments

/-- Whether a call is one of the prelude's. -/
def Target.isPrelude : Target → Bool
  | .path segments =>
    let segments := withoutStdCrate segments
    preludePaths.contains segments ||
      (1 < segments.length && segments.getLast?.any preludeMethods.contains)
  | .member _ name => preludeMethods.contains name
  | _ => false

end CallProbe.Call
