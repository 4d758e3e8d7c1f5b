import CallProbe.Proofs.Grouping.Settled
import CallProbe.Proofs.Wrap.Unwrap
import CallProbe.Probe.Probed

/-! # What a probe comes to

A function that has a body and runs at run time is never refused. What a plan puts into it is generated as tokens and
read back piece by piece, then the whole function is: a probe fails where one of the pieces cannot be read
(`Plan.Unread`), where the whole cannot, or where a part has no layout, and for no other reason (`probe_ending`). -/

namespace CallProbe.Probe

open Source Call

variable {plan : Plan} {name : String} {f : Function} {body : Tree}

/-- A piece of generated code that cannot be read, and the fault in it. A path is such a piece only if it is no callee. -/
inductive Plan.Unread (plan : Plan) (name : String) (f : Function) (body : Tree) : Fault → Prop where
  /-- The wrapper, called on the site of an accepted call. -/
  | wrapper {c : Tree} {site : Site} {fault : Fault} (hmem : c ∈ (visits body).list)
      (hsite : Site.of? name c = some site) (hacc : plan.calls.accepts site.target = true)
      (hcallee : isCallee plan.calls.wrapper = false)
      (hread : guardArgs plan.calls.wrapper site.toStatic = .error fault) : Unread plan name f body fault
  /-- An accepted call, with the calls inside it wrapped. -/
  | call {c : Tree} {site : Site} {fault : Fault} (hmem : c ∈ (visits body).list)
      (hsite : Site.of? name c = some site) (hacc : plan.calls.accepts site.target = true)
      (hread : Grammar.parseExpr (plan.calls.wrapInside name c).written = .error fault) : Unread plan name f body fault
  /-- A callback, as a function of the type for callbacks. -/
  | callback {options : ProfileOptions} {path : Tree} {fault : Fault} (hplan : plan = .profile options)
      (hpath : options.below = some path ∨ options.above = some path) (hcallee : isCallee path = false)
      (hread : callbackExpr (some path) = .error fault) : Unread plan name f body fault
  /-- The body of an async function, as a part of the future. -/
  | future {options : ProfileOptions} {fault : Fault} (hplan : plan = .profile options) (hasync : f.isAsync = true)
      (hread : Grammar.parseBlock (options.calls.wrapTree name body).written = .error fault) : Unread plan name f body fault

/-! ### Pieces -/

theorem unreadable?_eq_some {wrapper call : Tree} {site : Site} {fault : Fault}
    (h : unreadable? wrapper site call = some fault) :
    isCallee wrapper = false ∧ guardArgs wrapper site.toStatic = .error fault ∨
      Grammar.parseExpr call.written = .error fault := by
  unfold unreadable? at h
  split at h
  · rename_i hguard
    cases h
    refine .inl ⟨?_, hguard⟩
    cases hcallee : isCallee wrapper with
    | false => rfl
    | true => simp [guardArgs, hcallee] at hguard
  · rename_i hcall
    cases h
    exact .inr hcall
  · cases h

theorem CallOptions.guardHalt_eq_some {options : CallOptions} {c : Tree} {halt : Halt}
    (h : options.guardHalt name c = some halt) : ∃ site fault, Site.of? name c = some site ∧
      options.accepts site.target = true ∧ unreadable? options.wrapper site (options.wrapInside name c) = some fault ∧
      halt = .broken fault := by
  obtain ⟨site, hsite, h⟩ := Option.bind_eq_some_iff.mp h
  split at h
  · rename_i hacc
    obtain ⟨fault, hfault, rfl⟩ := Option.map_eq_some_iff.mp h
    exact ⟨site, fault, hsite, hacc, hfault, rfl⟩
  · cases h

/-- Whatever stops the wrapping of a call where it is replaced is a piece that cannot be read. -/
theorem Plan.unread_of_guardHalt {c : Tree} {halt : Halt} (hmem : c ∈ (visits body).list)
    (h : plan.calls.guardHalt name c = some halt) : ∃ fault, halt = .broken fault ∧ plan.Unread name f body fault := by
  obtain ⟨site, fault, hsite, hacc, hread, rfl⟩ := CallOptions.guardHalt_eq_some h
  refine ⟨fault, rfl, ?_⟩
  rcases unreadable?_eq_some hread with ⟨hcallee, hguard⟩ | hcall
  · exact .wrapper hmem hsite hacc hcallee hguard
  · exact .call hmem hsite hacc hcall

theorem CallOptions.guardHalt_ne_none {options : CallOptions} {c : Tree} {site : Site} {fault : Fault}
    (hsite : Site.of? name c = some site) (hacc : options.accepts site.target = true)
    (h : guardArgs options.wrapper site.toStatic = .error fault ∨
      Grammar.parseExpr (options.wrapInside name c).written = .error fault) : options.guardHalt name c ≠ none := by
  rw [guardHalt, hsite, Option.bind_some, if_pos hacc]
  unfold unreadable?
  rcases h with h | h
  · simp [h]
  · cases guardArgs options.wrapper site.toStatic <;> simp [h]

/-- A callback that cannot be read is no callee. -/
theorem callbackExpr_error {callback : Option Tree} {fault : Fault} (h : callbackExpr callback = .error fault) :
    ∃ path, callback = some path ∧ isCallee path = false := by
  cases callback with
  | none => cases h
  | some path =>
    refine ⟨path, rfl, ?_⟩
    cases hcallee : isCallee path with
    | false => rfl
    | true =>
      rw [callbackExpr] at h
      simp only [hcallee, if_true] at h
      cases h

theorem profileItem_error {options : ProfileOptions} {fault : Fault} (h : profileItem options name = .error fault) :
    callbackExpr options.below = .error fault ∨ callbackExpr options.above = .error fault := by
  unfold profileItem at h
  cases hbelow : callbackExpr options.below with
  | error e =>
    rw [hbelow] at h
    cases h
    exact .inl rfl
  | ok b =>
    cases habove : callbackExpr options.above with
    | error e =>
      rw [hbelow, habove] at h
      cases h
      exact .inr rfl
    | ok a =>
      rw [hbelow, habove] at h
      cases h

theorem profileItem_ok {options : ProfileOptions} {item : Tree} (h : profileItem options name = .ok item) :
    (∃ b, callbackExpr options.below = .ok b) ∧ ∃ a, callbackExpr options.above = .ok a := by
  unfold profileItem at h
  cases hbelow : callbackExpr options.below with
  | error e =>
    rw [hbelow] at h
    cases h
  | ok b =>
    cases habove : callbackExpr options.above with
    | error e =>
      rw [hbelow, habove] at h
      cases h
    | ok a => exact ⟨⟨b, rfl⟩, a, rfl⟩

/-! ### Transforms -/

/-- What may become of a transform that is not refused: it cannot show a part, it cannot read a piece of what it generates,
    or it gives a function. -/
inductive Transformed (plan : Plan) (name : String) (f : Function) (body : Tree) (P : Function → Nat → Prop) :
    Except Halt (Function × Nat) → Prop where
  | unprintable (part : Layout.Unprintable) : Transformed plan name f body P (.error (.unprintable part))
  | broken {fault : Fault} (h : plan.Unread name f body fault) : Transformed plan name f body P (.error (.broken fault))
  | done {g : Function} {count : Nat} (h : P g count) : Transformed plan name f body P (.ok (g, count))

theorem Function.isAsync_allowUnreachable (f : Function) : f.allowUnreachable.isAsync = f.isAsync := by
  unfold allowUnreachable
  dsimp only
  split <;> rfl

theorem Function.isConst_allowUnreachable (f : Function) : f.allowUnreachable.isConst = f.isConst := by
  unfold allowUnreachable
  dsimp only
  split <;> rfl

theorem Function.body_allowUnreachable (f : Function) : f.allowUnreachable.body = f.body := by
  unfold allowUnreachable
  dsimp only
  split <;> rfl

theorem CallOptions.apply_outcome (hbody : f.body = some body) (hconst : f.isConst = false) :
    Transformed plan name f body (fun g count => g.body = some (plan.calls.wrapTree name body) ∧ g.isConst = false ∧
        g.isAsync = f.isAsync ∧ count = plan.calls.acceptedCount name (visits body) ∧
        ∀ c ∈ (visits body).list, plan.calls.guardHalt name c = none)
      (plan.calls.apply name f) := by
  unfold CallOptions.apply
  rw [hconst, hbody]
  simp only [Bool.false_eq_true, if_false]
  rw [wrapBlock_eq]
  cases hhalt : plan.calls.haltOf name (visits body) with
  | some halt =>
    obtain ⟨c, hmem, hhidden | hguard⟩ := haltOf_eq_some hhalt
    · obtain ⟨site, -, hsome⟩ := Option.bind_eq_some_iff.mp hhidden
      obtain ⟨part, -, rfl⟩ := Option.map_eq_some_iff.mp hsome
      exact .unprintable part
    · obtain ⟨fault, rfl, hunread⟩ := Plan.unread_of_guardHalt (f := f) hmem hguard
      exact .broken hunread
  | none =>
    refine .done ?_
    have hnone := fun c hc => (haltOf_eq_none.mp hhalt c hc).2
    split
    · exact ⟨rfl, hconst, rfl, rfl, hnone⟩
    · refine ⟨?_, ?_, ?_, rfl, hnone⟩
      · rw [Function.body_allowUnreachable]
      · rw [Function.isConst_allowUnreachable]
        exact hconst
      · rw [Function.isAsync_allowUnreachable]
        rfl

/-- The prologue can be generated if the callbacks, and the body of an async function, can be read. -/
theorem ProfileOptions.apply_outcome {options : ProfileOptions} {g : Function} {new : Tree} (hplan : plan = .profile options)
    (hnew : new = options.calls.wrapTree name body) (hbody : g.body = some new) (hconst : g.isConst = false)
    (hasync : g.isAsync = f.isAsync) :
    Transformed plan name f body (fun _ count => count = 0 ∧ (∃ item, profileItem options name = .ok item) ∧
        (f.isAsync = true → ∃ b, Grammar.parseBlock new.written = .ok b))
      (options.apply name g) := by
  unfold ProfileOptions.apply
  rw [hconst, hbody, hasync]
  simp only [Bool.false_eq_true, if_false]
  cases hitem : profileItem options name with
  | error fault =>
    rcases profileItem_error hitem with hread | hread
    · obtain ⟨path, hpath, hcallee⟩ := callbackExpr_error hread
      rw [hpath] at hread
      exact .broken (.callback hplan (.inl hpath) hcallee hread)
    · obtain ⟨path, hpath, hcallee⟩ := callbackExpr_error hread
      rw [hpath] at hread
      exact .broken (.callback hplan (.inr hpath) hcallee hread)
  | ok item =>
    dsimp only
    split
    · rename_i hf
      cases hblock : Grammar.parseBlock new.written with
      | error fault => exact .broken (.future hplan hf (hnew ▸ hblock))
      | ok b => exact .done ⟨rfl, ⟨item, rfl⟩, fun _ => ⟨b, rfl⟩⟩
    · rename_i hf
      exact .done ⟨rfl, ⟨item, rfl⟩, fun h => absurd h hf⟩

/-- Where nothing stops the wrapping, the wrapper and the calls can be read. -/
theorem Plan.Unread.of_guardHalt {fault : Fault} (h : plan.Unread name f body fault)
    (hguard : ∀ c ∈ (visits body).list, plan.calls.guardHalt name c = none) :
    ∃ options, plan = .profile options ∧
      ((∃ path, (options.below = some path ∨ options.above = some path) ∧ callbackExpr (some path) = .error fault) ∨
        f.isAsync = true ∧ Grammar.parseBlock (options.calls.wrapTree name body).written = .error fault) := by
  cases h with
  | wrapper hmem hsite hacc hcallee hread =>
    exact absurd (hguard _ hmem) (CallOptions.guardHalt_ne_none hsite hacc (.inl hread))
  | call hmem hsite hacc hread => exact absurd (hguard _ hmem) (CallOptions.guardHalt_ne_none hsite hacc (.inr hread))
  | callback hplan hpath hcallee hread => exact ⟨_, hplan, .inl ⟨_, hpath, hread⟩⟩
  | future hplan hasync hread => exact ⟨_, hplan, .inr ⟨hasync, hread⟩⟩

/-- Where the prologue was generated, the callbacks and the body of an async function can be read. -/
theorem Plan.not_unread_of_prologue {options : ProfileOptions} {item : Tree}
    (hguard : ∀ c ∈ (visits body).list, options.calls.guardHalt name c = none) (hitem : profileItem options name = .ok item)
    (hfuture : f.isAsync = true → ∃ b, Grammar.parseBlock (options.calls.wrapTree name body).written = .ok b) (fault : Fault) :
    ¬(Plan.profile options).Unread name f body fault := by
  intro hunread
  obtain ⟨_, hplan, hcase⟩ := hunread.of_guardHalt hguard
  cases hplan
  obtain ⟨⟨below, hbelow⟩, above, habove⟩ := profileItem_ok hitem
  rcases hcase with ⟨path, hpath | hpath, hread⟩ | ⟨hasync, hread⟩
  · rw [← hpath, hbelow] at hread
    cases hread
  · rw [← hpath, habove] at hread
    cases hread
  · obtain ⟨block, hblock⟩ := hfuture hasync
    rw [hblock] at hread
    cases hread

/-- A transform of a function with a body that runs at run time is not refused. It gives a function exactly if every piece
    that it generates can be read and shown. -/
theorem Plan.transform_outcome (hbody : f.body = some body) (hconst : f.isConst = false) :
    Transformed plan name f body
      (fun _ count => count = plan.calls.acceptedCount name (visits body) ∧ ∀ fault, ¬plan.Unread name f body fault)
      (plan.transform name f) := by
  have hcalls : Transformed plan name f body _ (plan.calls.apply name f) := CallOptions.apply_outcome hbody hconst
  cases hwrapped : plan.calls.apply name f with
  | error halt =>
    -- A profile wraps the calls first, and stops with them.
    have htransform : plan.transform name f = .error halt := by
      cases plan with
      | wrapCalls options => exact hwrapped
      | profile options =>
        rw [Plan.transform, show options.calls.apply name f = .error halt from hwrapped]
        rfl
    rw [hwrapped] at hcalls
    rw [htransform]
    cases hcalls with
    | unprintable part => exact .unprintable part
    | broken h => exact .broken h
  | ok r =>
    obtain ⟨g, count⟩ := r
    rw [hwrapped] at hcalls
    cases hcalls with
    | done h =>
    obtain ⟨hg, hgconst, hgasync, hcount, hguard⟩ := h
    cases plan with
    | wrapCalls options =>
      rw [Plan.transform, show options.apply name f = .ok (g, count) from hwrapped]
      refine .done ⟨hcount, fun fault hunread => ?_⟩
      obtain ⟨_, hplan, -⟩ := hunread.of_guardHalt hguard
      cases hplan
    | profile options =>
      have hprofile := ProfileOptions.apply_outcome (f := f) rfl rfl hg hgconst hgasync
      rw [Plan.transform, show options.calls.apply name f = .ok (g, count) from hwrapped]
      change Transformed _ _ _ _ _ ((options.apply name g).bind fun r => .ok (r.1, count + r.2))
      cases hprologue : options.apply name g with
      | error halt =>
        rw [hprologue] at hprofile
        cases hprofile with
        | unprintable part => exact .unprintable part
        | broken h => exact .broken h
      | ok r =>
        rw [hprologue] at hprofile
        cases hprofile with
        | done h =>
        obtain ⟨rfl, ⟨item, hitem⟩, hfuture⟩ := h
        exact .done ⟨hcount, Plan.not_unread_of_prologue hguard hitem hfuture⟩

/-! ### Probes -/

/-- How a probe ends if its transform stops. -/
def Halt.failure (name : String) : Halt → Failure
  | .refused cause => .error (.probeFailed name .transforming cause)
  | .broken fault => .broken fault
  | .unprintable part => .unprintable part

theorem rebuild_of_halt {halt : Halt} (before : String) (h : plan.transform name f = .error halt) :
    rebuild f name plan body before = .error (halt.failure name) := by
  unfold rebuild
  rw [h]
  cases halt <;> rfl

/-- A function that cannot be read back is no item. -/
theorem rebuild_of_unreadable {g : Function} {count : Nat} (before : String) (h : plan.transform name f = .ok (g, count))
    (hback : g.readsBack = false) :
    rebuild f name plan body before = .error (.error (.probeFailed name .recompiling .unreadable)) := by
  unfold rebuild
  rw [h]
  simp [Except.mapError, bind, Except.bind, hback]

/-- What a probe tells of the function that a plan made of another, `count` of whose calls were wrapped. -/
def Plan.probed (plan : Plan) (name before : String) (g : Function) (count : Nat) (after : String) : Probed where
  function := name
  sourceBefore := before
  sourceAfter := after
  item := g.grouped
  details := plan.calls.details.map fun n => detailsConst g.grouped.vis n name before after
  callsWrapped := count
  profiled := match plan with
    | .profile _ => true
    | .wrapCalls _ => false

/-- A function is rebuilt if its transform succeeds and what the transform leaves can be read back and shown. -/
theorem rebuild_eq_ok {before : String} {p : Probed} :
    rebuild f name plan body before = .ok p ↔ ∃ g count after, plan.transform name f = .ok (g, count) ∧
      g.readsBack = true ∧ g.grouped.render (g.grouped.body.getD body) = .ok after ∧
      p = plan.probed name before g count after := by
  constructor
  · intro h
    cases htransform : plan.transform name f with
    | error halt =>
      rw [rebuild_of_halt before htransform] at h
      cases h
    | ok r =>
      obtain ⟨g, count⟩ := r
      unfold rebuild at h
      rw [htransform] at h
      change (if (!g.readsBack) = true then _ else _) = _ at h
      split at h
      · cases h
      · rename_i hback
        cases hrender : g.grouped.render (g.grouped.body.getD body) with
        | error part =>
          rw [hrender] at h
          cases h
        | ok after =>
          rw [hrender] at h
          cases h
          exact ⟨g, count, after, rfl, by simpa using hback, hrender, rfl⟩
  · rintro ⟨g, count, after, htransform, hback, hrender, rfl⟩
    unfold rebuild
    rw [htransform]
    simp only [Except.mapError, bind, Except.bind, hback, Bool.not_true, Bool.false_eq_true, if_false, hrender]
    rfl

/-- A function that can be read back is the item, if it can be shown. -/
theorem rebuild_of_readable {g : Function} {count : Nat} (before : String) (h : plan.transform name f = .ok (g, count))
    (hback : g.readsBack = true) :
    (∃ part, rebuild f name plan body before = .error (.unprintable part)) ∨
      ∃ r, rebuild f name plan body before = .ok r ∧ r.item = g.grouped ∧ r.callsWrapped = count := by
  cases hrender : g.grouped.render (g.grouped.body.getD body) with
  | error part =>
    refine .inl ⟨part, ?_⟩
    unfold rebuild
    rw [h]
    simp only [Except.mapError, bind, Except.bind, hback, Bool.not_true, Bool.false_eq_true, if_false, hrender]
  | ok after => exact .inr ⟨_, rebuild_eq_ok.mpr ⟨g, count, after, h, hback, hrender, rfl⟩, rfl, rfl⟩

/-- A probe tells the text of the function as it was and rebuilds the function without its marker. -/
theorem probe_eq {strip : Option Tree} {g : Function} (hbody : f.body = some body)
    (hstrip : strip.elim (some f) f.strip? = some g) :
    probe f name plan strip = ((f.render body).mapError Failure.unprintable).bind (rebuild g name plan body) := by
  unfold probe
  rw [hbody]
  cases strip with
  | none =>
    cases hstrip
    rfl
  | some a =>
    rw [Option.elim_some] at hstrip
    dsimp only
    rw [hstrip]
    rfl

theorem probe_ok {strip : Option Tree} {g : Function} {p : Probed} (hbody : f.body = some body)
    (hstrip : strip.elim (some f) f.strip? = some g) :
    probe f name plan strip = .ok p ↔ ∃ before, f.render body = .ok before ∧ rebuild g name plan body before = .ok p := by
  rw [probe_eq hbody hstrip]
  cases f.render body with
  | error part => simp [Except.mapError, Except.bind]
  | ok before => simp [Except.mapError, Except.bind]

/-- A probe that succeeds had a body, and a marker to take away if it was to. -/
theorem rebuild_of_probe {strip : Option Tree} {p : Probed} (h : probe f name plan strip = .ok p) :
    ∃ body f' before, f.body = some body ∧ strip.elim (some f) f.strip? = some f' ∧
      rebuild f' name plan body before = .ok p := by
  cases hbody : f.body with
  | none =>
    unfold probe at h
    rw [hbody] at h
    cases h
  | some body =>
    cases hstrip : strip.elim (some f) f.strip? with
    | some f' =>
      obtain ⟨before, -, hrebuild⟩ := (probe_ok hbody hstrip).mp h
      exact ⟨body, f', before, rfl, rfl, hrebuild⟩
    | none =>
      cases strip with
      | none => cases hstrip
      | some a =>
        rw [Option.elim_some] at hstrip
        unfold probe at h
        cases hrender : f.render body <;> simp [hbody, hstrip, hrender, Except.mapError, bind, Except.bind] at h

/-- How a probe of a function that has a body and runs at run time may end. -/
inductive Ending (plan : Plan) (name : String) (f : Function) (body : Tree) : Except Failure Probed → Prop where
  | unprintable (part : Layout.Unprintable) : Ending plan name f body (.error (.unprintable part))
  | broken {fault : Fault} (h : plan.Unread name f body fault) : Ending plan name f body (.error (.broken fault))
  | unreadable {g : Function} {count : Nat} (htransform : plan.transform name f = .ok (g, count))
      (hread : ∀ fault, ¬plan.Unread name f body fault) (hparse : ∀ k, Function.parse g.toTokens ≠ .ok k) :
      Ending plan name f body (.error (.error (.probeFailed name .recompiling .unreadable)))
  | done {g k : Function} {count : Nat} {r : Probed} (htransform : plan.transform name f = .ok (g, count))
      (hread : ∀ fault, ¬plan.Unread name f body fault) (hparse : Function.parse g.toTokens = .ok k)
      (hitem : r.item = g.grouped) (hcount : r.callsWrapped = plan.calls.acceptedCount name (visits body)) :
      Ending plan name f body (.ok r)

theorem rebuild_ending (hbody : f.body = some body) (hconst : f.isConst = false) (plan : Plan) (name before : String) :
    Ending plan name f body (rebuild f name plan body before) := by
  have htransform : Transformed plan name f body _ (plan.transform name f) := Plan.transform_outcome hbody hconst
  cases hresult : plan.transform name f with
  | error halt =>
    rw [hresult] at htransform
    rw [rebuild_of_halt before hresult]
    cases htransform with
    | unprintable part => exact .unprintable part
    | broken h => exact .broken h
  | ok result =>
    obtain ⟨g, count⟩ := result
    rw [hresult] at htransform
    cases htransform with
    | done h =>
    obtain ⟨hcount, hread⟩ := h
    cases hparse : Function.parse g.toTokens with
    | error fault =>
      have hback : g.readsBack = false := by rw [Function.readsBack, hparse]; rfl
      rw [rebuild_of_unreadable before hresult hback]
      refine .unreadable hresult hread fun k hk => ?_
      rw [hparse] at hk
      cases hk
    | ok k =>
      have hback : g.readsBack = true := by rw [Function.readsBack, hparse]; rfl
      rcases rebuild_of_readable before hresult hback with ⟨part, hpart⟩ | ⟨r, hr, hitem, hwrapped⟩
      · rw [hpart]
        exact .unprintable part
      · rw [hr]
        exact .done hresult hread hparse hitem (hwrapped.trans hcount)

theorem probe_ending (hbody : f.body = some body) (hconst : f.isConst = false) (plan : Plan) (name : String) :
    Ending plan name f body (probe f name plan none) := by
  rw [probe_eq hbody rfl]
  cases f.render body with
  | error part => exact .unprintable part
  | ok before => exact rebuild_ending hbody hconst plan name before

/-! ### Functions from text -/

def tokensOf (text : String) : List TokenTree := (tokenize text).getD []

/-- A function and the plan of a marker on it, both read from text. -/
def Reads (m : Marker) (item args : String) (f : Function) (plan : Plan) : Prop :=
  Function.parse (tokensOf item) = .ok f ∧ Plan.parse m (tokensOf args) = .ok plan

/-- Whether a function and a plan are read and pass a test. -/
def readsAnd (m : Marker) (item args : String) (test : Function → Plan → Bool) : Bool :=
  match Function.parse (tokensOf item), Plan.parse m (tokensOf args) with
  | .ok f, .ok plan => test f plan
  | _, _ => false

theorem reads_of_readsAnd {m : Marker} {item args : String} {test : Function → Plan → Bool}
    (h : readsAnd m item args test = true) : ∃ f plan, Reads m item args f plan ∧ test f plan = true := by
  unfold readsAnd at h
  split at h
  · rename_i f plan hf hplan
    exact ⟨f, plan, ⟨hf, hplan⟩, h⟩
  · cases h

end CallProbe.Probe
