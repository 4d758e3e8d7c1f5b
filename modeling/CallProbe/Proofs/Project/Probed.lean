import CallProbe.CommandLine.Build
import CallProbe.Proofs.Files.Lookup
import CallProbe.Proofs.Pass.Reached
import CallProbe.Proofs.Probe.Outcome

/-! # Probing the files of a copy

Probing reads the file of each target, one after the other, and nothing else. It changes no file but the one it has read, and
that one can still be read, so no probe fails for want of a file that was there at the start (`probeAll_unread`). -/

namespace CallProbe.Project

open Files Entry Probe CommandLine

variable {project names : List String} {targets : List Target} {t : Target} {f : File} {s : Staged}

/-! ### What is read -/

/-- Whether what failed is the reading of a file. -/
def unread : Failure → Bool
  | .error (.unreadable _ _) => true
  | _ => false

theorem unread_halt (name : String) (halt : Halt) : unread (halt.failure name) = false := by
  cases halt <;> rfl

theorem rebuild_unread {name before : String} {plan : Plan} {x : Function} {body : Source.Tree} {e : Failure}
    (h : rebuild x name plan body before = .error e) : unread e = false := by
  cases htransform : plan.transform name x with
  | error halt =>
    rw [rebuild_of_halt before htransform] at h
    cases h
    exact unread_halt name halt
  | ok r =>
    obtain ⟨g, count⟩ := r
    cases hback : g.readsBack with
    | false =>
      rw [rebuild_of_unreadable before htransform hback] at h
      cases h
      rfl
    | true =>
      rcases rebuild_of_readable before htransform hback with ⟨part, hpart⟩ | ⟨r, hr, -⟩
      · rw [hpart] at h
        cases h
        rfl
      · rw [hr] at h
        cases h

theorem probe_unread {name : String} {plan : Plan} {x : Function} {strip : Option Source.Tree} {e : Failure}
    (h : probe x name plan strip = .error e) : unread e = false := by
  unfold probe at h
  split at h
  · cases h
    rfl
  · rename_i body hbody
    cases hrender : x.render body with
    | error part =>
      rw [hrender] at h
      cases h
      rfl
    | ok before =>
      rw [hrender] at h
      dsimp only [Except.mapError, bind, Except.bind] at h
      split at h
      · exact rebuild_unread h
      · split at h
        · exact rebuild_unread h
        · cases h
          rfl

theorem apply_unread {name : String} {x : Function} {ask : Ask} {e : Failure} (h : ask.apply name x = .error e) :
    unread e = false := by
  cases ask with
  | selected plan =>
    change probe x name plan none = .error e at h
    exact probe_unread h
  | marked m attr =>
    cases hplan : Plan.ofAttr m attr with
    | error err =>
      simp only [Ask.apply, hplan] at h
      cases h
      rfl
    | ok plan =>
      exact probe_unread ((Ask.apply_marked hplan name x).symm.trans h)

theorem applyAll_unread {name : String} {x : Function} {asks : List Ask} {e : Failure}
    (h : Ask.applyAll name x asks = .error e) : unread e = false := by
  induction asks generalizing x with
  | nil => cases h
  | cons a as ih =>
    unfold Ask.applyAll at h
    cases ha : a.apply name x with
    | error e' =>
      rw [ha] at h
      cases h
      exact apply_unread ha
    | ok r =>
      rw [ha] at h
      cases hrest : Ask.applyAll name r.item as with
      | error e' =>
        simp only [hrest, bind, Except.bind] at h
        cases h
        exact ih hrest
      | ok rs =>
        simp only [hrest, bind, Except.bind] at h
        cases h

/-- Probing a text reads no file. -/
theorem instrument_unread {path source : String} {functions : List String} {plan : Option Plan} {e : Failure}
    (h : instrument path source functions plan = .error e) : unread e = false := by
  unfold instrument at h
  cases hfile : fileOfText path source with
  | error err =>
    rw [hfile] at h
    cases h
    unfold fileOfText at hfile
    split at hfile
    · cases hfile
    · cases hfile
      rfl
  | ok file =>
    simp only [hfile, Except.mapError, bind, Except.bind, instrumentTree_performs] at h
    cases hall : (reachedIn file).mapM (requestFor file functions plan).probes with
    | error err =>
      rw [hall] at h
      cases h
      obtain ⟨before, x, after, -, hx, -⟩ := mapM_eq_error hall
      exact applyAll_unread hx
    | ok done =>
      rw [hall] at h
      simp only [Except.map] at h
      cases htext : textOfFile ((requestFor file functions plan).editFile file) with
      | error err =>
        rw [htext] at h
        cases h
        unfold textOfFile at htext
        cases hlayout : Layout.textOfFile ((requestFor file functions plan).editFile file) with
        | error part =>
          rw [hlayout] at htext
          cases htext
          rfl
        | ok text =>
          rw [hlayout] at htext
          cases htext
      | ok text =>
        rw [htext] at h
        cases h

/-! ### Probing a copy -/

/-- Whether the file of a target is in the project and can be read in a copy. -/
def CanRead (s : Staged) (project : List String) (t : Target) : Prop :=
  t.file.drop project.length ≠ [] ∧ ∃ f text, s.disk.top.look (s.names (t.file.drop project.length)) = some (some f) ∧ f.read = .ok text

theorem readText_of_look {e : Entry} {text : String} (hlook : e.look names = some (some f)) (hread : f.read = .ok text) :
    e.readText names = .ok text := by
  rw [Entry.readText, look_eq_file.1 hlook]
  exact hread

theorem isReadable_of_read {text : String} (h : f.read = .ok text) : f.isReadable = true := by
  unfold File.read at h
  split at h
  · cases h
  · rename_i hread
    simpa using hread

theorem write_inv {inPackage : List String} {text : String} {s' : Staged} (h : s.write inPackage text = .ok s') :
    s'.member = s.member ∧ s.disk.top.writeText (s.names inPackage) text = .ok s'.disk.top := by
  unfold Staged.write at h
  cases hwrite : s.disk.top.writeText (s.names inPackage) text with
  | error err =>
    rw [hwrite] at h
    cases h
  | ok top =>
    rw [hwrite] at h
    cases h
    exact ⟨rfl, rfl⟩

theorem write_error {inPackage : List String} {text : String} {err : Error} (h : s.write inPackage text = .error err) :
    ∃ reason, err = .io reason := by
  unfold Staged.write at h
  cases hwrite : s.disk.top.writeText (s.names inPackage) text with
  | error access =>
    rw [hwrite] at h
    cases h
    exact ⟨_, rfl⟩
  | ok top =>
    rw [hwrite] at h
    cases h

variable {plan : Option Plan} {b : Bool}

/-- Probing a file that can be read leaves the other files as they are, and this one such that it can be read. -/
theorem probeStaged_canRead {u : Target} {r : Staged × Bool} (ht : CanRead s project t) (hu : CanRead s project u)
    (h : probeStaged s project plan t = .ok r) : CanRead r.1 project u := by
  obtain ⟨hne, f, text, hlook, hread⟩ := ht
  have hnames : s.names (t.file.drop project.length) ≠ [] := fun hnil => hne (List.append_eq_nil_iff.1 hnil).2
  unfold probeStaged at h
  simp only [readText_of_look hlook hread, Except.mapError, bind, Except.bind] at h
  split at h
  · cases h
  · rename_i result hresult
    split at h
    · cases h
    · rename_i s' hs'
      cases h
      cases hwrite : s.write (t.file.drop project.length) result.source with
      | error err =>
        rw [hwrite] at hs'
        cases hs'
      | ok s'' =>
        rw [hwrite] at hs'
        obtain rfl : s'' = s' := Except.ok.inj hs'
        obtain ⟨hmember, htop⟩ := write_inv hwrite
        obtain ⟨g, hg, hfiles⟩ := look_writeText hnames htop
        obtain ⟨hneu, fu, textu, hlooku, hreadu⟩ := hu
        have hplace : ∀ inPackage, s''.names inPackage = s.names inPackage := fun inPackage => by
          rw [Staged.names, hmember, Staged.names]
        by_cases heq : s.names (u.file.drop project.length) = s.names (t.file.drop project.length)
        · refine ⟨hneu, g, result.source, ?_, read_of_write (isReadable_of_read hread) (hg f hlook)⟩
          rw [hplace, hfiles, if_pos heq]
        · refine ⟨hneu, fu, textu, ?_, hreadu⟩
          rw [hplace, hfiles, if_neg heq]
          exact hlooku

theorem probeStaged_unread {e : Failure} (ht : CanRead s project t) (h : probeStaged s project plan t = .error e) :
    unread e = false := by
  obtain ⟨-, f, text, hlook, hread⟩ := ht
  unfold probeStaged at h
  simp only [readText_of_look hlook hread, Except.mapError, bind, Except.bind] at h
  split at h
  · cases h
    rename_i hresult
    exact instrument_unread hresult
  · rename_i result hresult
    split at h
    · rename_i err hs'
      cases h
      cases hwrite : s.write (t.file.drop project.length) result.source with
      | error err =>
        rw [hwrite] at hs'
        obtain ⟨reason, rfl⟩ := write_error hwrite
        cases hs'
        rfl
      | ok s'' =>
        rw [hwrite] at hs'
        cases hs'
    · cases h

/-- If the files of all targets can be read, no probe of them fails because a file cannot be read. -/
theorem probeAll_unread {e : Failure} (hall : ∀ t ∈ targets, CanRead s project t)
    (h : probeAll project plan targets s b = .error e) : unread e = false := by
  induction targets generalizing s b with
  | nil => cases h
  | cons t ts ih =>
    unfold probeAll at h
    cases hstep : probeStaged s project plan t with
    | error err =>
      rw [hstep] at h
      cases h
      exact probeStaged_unread (hall t List.mem_cons_self) hstep
    | ok r =>
      simp only [hstep, bind, Except.bind] at h
      exact ih (fun u hu => probeStaged_canRead (hall t List.mem_cons_self) (hall u (List.mem_cons_of_mem _ hu)) hstep) h

/-- A file that is missing in a copy cannot be probed. -/
theorem probeStaged_missing (h : s.disk.top.at? (s.names (t.file.drop project.length)) = .error .missing) :
    probeStaged s project plan t = .error (.error (.unreadable (Text.joinWith "/" (t.file.drop project.length))
      AccessError.missing.text)) := by
  have hread : s.disk.top.readText (s.names (t.file.drop project.length)) = .error .missing := by
    unfold Entry.readText Entry.file?
    rw [h]
    rfl
  unfold probeStaged
  dsimp only
  rw [hread]
  rfl

end CallProbe.Project
