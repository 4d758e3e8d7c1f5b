import CallProbe.CommandLine.Plan
import CallProbe.Proofs.Probe.Surveyed
import CallProbe.Proofs.Wrap.Timed

/-! # Profiled functions

A profile puts two statements in front of the body, and moves the body of an async function into a future; the
statements stay as they are. `profile_keeps_body` says so, and counts: of all timed calls of a profiled function, those
that are new are the wrapped calls of its body, the ones that are written in a callback, and the ones in a return type
that is repeated. -/

namespace CallProbe.Source

/-- A word stands among tokens, at any depth of brackets. -/
inductive Occurs (word : String) : List TokenTree → Prop where
  | here {ts : List TokenTree} {pos : Pos} (h : .ident word pos ∈ ts) : Occurs word ts
  | inside {ts content : List TokenTree} {d : Delimiter} {o c : Pos} (hmem : .group d o content c ∈ ts)
      (h : Occurs word content) : Occurs word ts

theorem Occurs.mono {word : String} {ts us : List TokenTree} (h : Occurs word ts) (hsub : ts ⊆ us) : Occurs word us := by
  cases h with
  | here h => exact .here (hsub h)
  | inside hmem h => exact .inside (hsub hmem) h

mutual

theorem mentions_iff (word : String) (t : TokenTree) : t.mentions word = true ↔ Occurs word [t] := by
  cases t with
  | ident text pos =>
    rw [TokenTree.mentions, beq_iff_eq]
    constructor
    · rintro rfl
      exact .here (List.mem_singleton_self _)
    · rintro (h | h)
      · cases List.mem_singleton.mp h
        rfl
      · cases List.mem_singleton.mp h
  | group d o content c =>
    rw [TokenTree.mentions, mentionsAny_iff word content]
    constructor
    · exact .inside (List.mem_singleton_self _)
    · rintro (h | ⟨hmem, h⟩)
      · cases List.mem_singleton.mp h
      · cases List.mem_singleton.mp hmem
        exact h
  | lifetime | literal | punct =>
    refine ⟨fun h => ?_, fun h => ?_⟩
    · cases h
    · cases h with
      | here h => cases List.mem_singleton.mp h
      | inside h => cases List.mem_singleton.mp h

/-- The search for a word goes into all brackets. -/
theorem mentionsAny_iff (word : String) (ts : List TokenTree) :
    TokenTree.mentions.mentionsAny word ts = true ↔ Occurs word ts := by
  cases ts with
  | nil =>
    refine ⟨fun h => ?_, fun h => ?_⟩
    · cases h
    · cases h with
      | here h => cases h
      | inside h => cases h
  | cons t ts =>
    rw [TokenTree.mentions.mentionsAny, Bool.or_eq_true, mentions_iff word t, mentionsAny_iff word ts]
    constructor
    · rintro (h | h)
      · exact h.mono (by simp)
      · exact h.mono (List.subset_cons_self t ts)
    · rintro (h | ⟨hmem, h⟩)
      · rcases List.mem_cons.mp h with h | h
        · exact .inl (.here (List.mem_singleton.mpr h))
        · exact .inr (.here h)
      · rcases List.mem_cons.mp hmem with heq | hmem
        · exact .inl (.inside (List.mem_singleton.mpr heq) h)
        · exact .inr (.inside hmem h)

end

end CallProbe.Source

namespace CallProbe.Probe

open Source Call

variable {options : ProfileOptions} {name : String} {f g : Function} {body b : Tree}

/-! ### Plans that are read -/

theorem wrapper_of_callOptions {s : Settings} {wrapper : Tree} {calls : CallOptions}
    (h : s.callOptions wrapper = .ok calls) : calls.wrapper = wrapper := by
  unfold Settings.callOptions at h
  split at h <;> cases h <;> rfl

/-- A profile that a marker asks for wraps calls with `profile::time`. -/
theorem clock_of_parse {args : List TokenTree} (h : Plan.parse .profile args = .ok (.profile options)) :
    options.calls.wrapper = clock := by
  unfold Plan.parse at h
  cases hread : readSettings .profile args with
  | error e =>
    rw [hread] at h
    cases h
  | ok s =>
    rw [hread] at h
    change s.plan .profile = _ at h
    unfold Settings.plan at h
    dsimp only at h
    split at h
    · cases h
    · split at h
      · cases h
      · rename_i limit _ _
        cases hcalls : s.callOptions (ProfileOptions.ofLimit limit).calls.wrapper with
        | error e =>
          rw [hcalls] at h
          cases h
        | ok calls =>
          rw [hcalls] at h
          cases h
          exact wrapper_of_callOptions hcalls

/-! ### The prologue -/

/-- Whether the callbacks can be named where functions are called. -/
def ProfileOptions.Callable (options : ProfileOptions) : Prop :=
  ∀ path, options.below = some path ∨ options.above = some path → isCallee path = true

theorem ProfileOptions.callable_of_all (hbelow : options.below.all isCallee = true)
    (habove : options.above.all isCallee = true) : options.Callable := by
  rintro path (hpath | hpath)
  · simpa [hpath] using hbelow
  · simpa [hpath] using habove

/-- The number of timed calls that are written in the callbacks. -/
def ProfileOptions.callbackTimers (options : ProfileOptions) : Nat :=
  options.below.elim 0 timers + options.above.elim 0 timers

theorem callbackExpr_callable {callback : Option Tree} (h : ∀ path, callback = some path → isCallee path = true) :
    ∃ code, callbackExpr callback = .ok code ∧ timers code = callback.elim 0 timers := by
  cases callback with
  | none => exact ⟨_, rfl, timers_rootPath _ _⟩
  | some path =>
    have hother : (calleeName? (Make.rootPath ["core", "option", "Option", "Some"]) == some ["finish"]) = false := by
      simp [calleeName?_rootPath]
    refine ⟨_, by rw [callbackExpr, if_pos (h path rfl)]; rfl, ?_⟩
    rw [timers_call hother]
    simp (disch := decide) [timers_other]

theorem profileItem_callable (h : options.Callable) (name : String) :
    ∃ item, profileItem options name = .ok item ∧ timers item = options.callbackTimers := by
  obtain ⟨below, hbelow, htbelow⟩ := callbackExpr_callable fun path hpath => h path (.inl hpath)
  obtain ⟨above, habove, htabove⟩ := callbackExpr_callable fun path hpath => h path (.inr hpath)
  have hprofile : (calleeName? (Make.rootPath (profilerPath ["Profile", "new"])) == some ["finish"]) = false := by
    simp [profilerPath, calleeName?_rootPath]
  have hlimit : (calleeName? (Make.rootPath ["core", "time", "Duration", "new"]) == some ["finish"]) = false := by
    simp [calleeName?_rootPath]
  refine ⟨_, by rw [profileItem, hbelow, habove]; rfl, ?_⟩
  simp [timers_staticItem, timers_call hprofile, timers_call hlimit, timers_terminated, Make.separated,
    htbelow, htabove, ProfileOptions.callbackTimers]

theorem timers_guardStmt {maker : String} (h : maker = "start" ∨ maker = "new") : timers (guardStmt maker) = 0 := by
  have hmaker : (calleeName? (Make.rootPath (profilerPath ["Invocation", maker])) == some ["finish"]) = false := by
    rcases h with rfl | rfl <;> simp [profilerPath, calleeName?_rootPath]
  simp [guardStmt, timers_letStmt, timers_call hmaker]

theorem timers_scopeExpr (ss : List Tree) : timers (scopeExpr ss) = (ss.map timers).sum := by
  have hscope : (calleeName? (Make.rootPath (profilerPath ["scope"])) == some ["finish"]) = false := by
    simp [profilerPath, calleeName?_rootPath]
  simp (disch := decide) [scopeExpr, timers_other, timers_call hscope]

/-- A return type that is repeated adds the timed calls in it. -/
theorem timers_scopedStmts (type : Option Tree) (ss : List Tree) :
    ((scopedStmts type ss).map timers).sum = type.elim 0 timers + (ss.map timers).sum := by
  cases type with
  | none => simp [scopedStmts]
  | some t => simp (disch := decide) [scopedStmts, timers_letStmt, timers_other]

theorem timers_body (h : IsBody b) : timers b = ((bodyStmts b).map timers).sum := by
  obtain ⟨d, o, ss, c, rfl⟩ := h
  simp (disch := decide) [timers_other, bodyStmts]

theorem bindingType?_eq_some {T : Tree} :
    bindingType? f = some T ↔ f.returnType? = some T ∧ ¬Occurs "impl" T.toTokens := by
  unfold bindingType?
  cases f.returnType? with
  | none => simp
  | some t =>
    dsimp only
    split
    · rename_i h
      rw [mentionsAny_iff] at h
      simp only [reduceCtorEq, Option.some.injEq, false_iff, not_and, not_not]
      rintro rfl
      exact h
    · rename_i h
      rw [mentionsAny_iff] at h
      simp only [Option.some.injEq]
      constructor
      · rintro rfl
        exact ⟨rfl, h⟩
      · exact And.left

/-! ### Statements of a profiled body -/

/-- What a profile makes of a function that runs at run time: an async function has to be read again. -/
theorem ProfileOptions.apply_eq {item : Tree} (hbody : f.body = some body) (hconst : f.isConst = false)
    (hitem : profileItem options name = .ok item) :
    (f.isAsync = false → options.apply name f =
      .ok ({ f with body := some (withStmts ([Make.itemStmt item, guardStmt "start"] ++ ·) body) }, 0)) ∧
    (f.isAsync = true → ∀ read, Grammar.parseBlock body.written = .ok read → options.apply name f =
      .ok (({ f with body := some (withStmts (fun ss => [Make.itemStmt item, guardStmt "new",
        Make.lastExpr (scopeExpr (scopedStmts (bindingType? f) ss))]) body) } : Function).allowUnreachable, 0)) := by
  unfold ProfileOptions.apply
  rw [hconst, hbody, hitem]
  refine ⟨fun hsync => ?_, fun hasync read hread => ?_⟩
  · rw [hsync]
    rfl
  · rw [hasync]
    simp only [Bool.false_eq_true, ↓reduceIte, hread]

/-! ### Timed calls of a profiled function -/

/-- The number of timed calls in a function. -/
def Function.timers (f : Function) : Nat :=
  (f.attrs.map Probe.timers).sum + Probe.timers f.vis + Probe.timers f.sig + f.body.elim 0 Probe.timers

/-- The number of timed calls in the return type, if it is repeated in the body. -/
def Function.typeTimers (f : Function) : Nat := if f.isAsync then (bindingType? f).elim 0 Probe.timers else 0

theorem Function.timers_grouped (f : Function) : f.grouped.timers = f.timers := by
  have hattrs : (f.attrs.map Tree.grouped).map Probe.timers = f.attrs.map Probe.timers := by
    simp
  unfold Function.timers Function.grouped
  cases f.body <;> simp [hattrs]

/-- The new timed calls of a body: those that are wrapped, and those that the prologue is given. -/
theorem Plan.Makes.timers (h : (Plan.profile options).Makes name f body b) (hform : IsBody body)
    (hclock : options.calls.wrapper = clock) (hcallable : options.Callable) :
    timers b = timers body + options.calls.acceptedCount name (visits body) + options.callbackTimers + f.typeTimers := by
  have hwrapped := hform.wrapTree options.calls name
  have hstmts : ((bodyStmts (options.calls.wrapTree name body)).map Probe.timers).sum =
      Probe.timers body + options.calls.acceptedCount name (visits body) := by
    rw [← timers_body hwrapped, CallOptions.timers_wrapTree hclock]
  obtain ⟨item', hitem', htimers⟩ := profileItem_callable hcallable name
  cases h with
  | @started _ item hsync hitem =>
    obtain rfl := Except.ok.inj (hitem'.symm.trans hitem)
    rw [timers_body (hwrapped.withStmts _), bodyStmts_withStmts hwrapped, List.map_append, List.sum_append, hstmts]
    simp [Function.typeTimers, hsync, htimers, timers_guardStmt]
    omega
  | @entered _ item hasync hitem =>
    obtain rfl := Except.ok.inj (hitem'.symm.trans hitem)
    rw [timers_body (hwrapped.withStmts _), bodyStmts_withStmts hwrapped]
    simp [Function.typeTimers, hasync, htimers, timers_guardStmt, timers_scopeExpr, timers_scopedStmts, hstmts]
    omega

theorem Plan.Changes.timers (h : (Plan.profile options).Changes name f body g) (hbody : f.body = some body)
    (hform : IsBody body) (hclock : options.calls.wrapper = clock) (hcallable : options.Callable) :
    g.timers = f.timers + options.calls.acceptedCount name (visits body) + options.callbackTimers + f.typeTimers := by
  obtain ⟨b, hb, hmakes⟩ := h.body
  have hattrs : (g.attrs.map Probe.timers).sum = (f.attrs.map Probe.timers).sum := by
    rcases h.attrs with hsame | hmore
    · rw [hsame]
    · rw [hmore, List.map_append, List.sum_append]
      rfl
  have hnew := hmakes.timers hform hclock hcallable
  simp only [Function.timers, hattrs, h.vis, h.sig, hb, hbody, Option.elim_some, hnew]
  omega

/-- The statements of a function that was probed with a profile, and the timed calls in it. -/
theorem probe_profile {strip : Option Tree} {p : Probed} (hbody : f.body = some body) (hform : IsBody body)
    (hcallable : options.Callable) (h : probe f name (.profile options) strip = .ok p) :
    ∃ f' item b, strip.elim (some f) f.strip? = some f' ∧ profileItem options name = .ok item ∧ p.item.body = some b ∧
      (let wrapped := (bodyStmts body).map (options.calls.wrapTree name)
      bodyStmts b = (if f.isAsync then [Make.itemStmt item, guardStmt "new",
          Make.lastExpr (scopeExpr (scopedStmts (bindingType? f) wrapped))]
        else Make.itemStmt item :: guardStmt "start" :: wrapped).map Tree.grouped) ∧
      (options.calls.wrapper = clock →
        p.item.timers = f'.timers + p.callsWrapped + options.callbackTimers + f.typeTimers) := by
  obtain ⟨body', f', before, hbody', hstrip, hrebuild⟩ := rebuild_of_probe h
  obtain rfl : body' = body := Option.some.inj (hbody'.symm.trans hbody)
  obtain ⟨-, -, hsig, hkept⟩ := strip_inv hstrip
  obtain ⟨-, -, -, g, hchanges, -, hitem⟩ := rebuild_inv (hkept.trans hbody) hrebuild
  have hcount : p.callsWrapped = options.calls.acceptedCount name (visits body') := by
    have hending := rebuild_ending (hkept.trans hbody) hchanges.runs (.profile options) name before
    rw [hrebuild] at hending
    cases hending with
    | done _ _ _ _ hcount => exact hcount
  have htimers (hclock : options.calls.wrapper = clock) :
      p.item.timers = f'.timers + p.callsWrapped + options.callbackTimers + f.typeTimers := by
    rw [hitem, Function.timers_grouped, hchanges.timers (hkept.trans hbody) hform hclock hcallable, hcount]
    rw [Function.typeTimers, isAsync_of_sig hsig, bindingType?_of_sig hsig]
    rfl
  obtain ⟨b, hb, hmakes⟩ := hchanges.body
  have hb' : p.item.body = some b.grouped := by rw [hitem, Function.grouped, hb, Option.map_some]
  have hwrapped := hform.wrapTree options.calls name
  cases hmakes with
  | @started _ item hsync hitem =>
    refine ⟨f', item, _, hstrip, hitem, hb', ?_, htimers⟩
    rw [bodyStmts_grouped (hwrapped.withStmts _), bodyStmts_withStmts hwrapped, bodyStmts_wrapTree hform,
      ← isAsync_of_sig hsig, hsync]
    rfl
  | @entered _ item hasync hitem =>
    refine ⟨f', item, _, hstrip, hitem, hb', ?_, htimers⟩
    rw [bodyStmts_grouped (hwrapped.withStmts _), bodyStmts_withStmts hwrapped, bodyStmts_wrapTree hform,
      ← isAsync_of_sig hsig, hasync, bindingType?_of_sig hsig]
    rfl

/-! ### Probes that are decided -/

/-- Whether a plan is a profile that passes a test. -/
def profiledAnd (test : ProfileOptions → Bool) : Plan → Bool
  | .profile options => test options
  | .wrapCalls _ => false

theorem profile_of_profiledAnd {plan : Plan} {test : ProfileOptions → Bool} (h : profiledAnd test plan = true) :
    ∃ options, plan = .profile options ∧ test options = true := by
  cases plan with
  | profile options => exact ⟨options, rfl, h⟩
  | wrapCalls options => cases h

/-- Whether a transform meets generated code that it cannot read. -/
def breaksOff : Except Halt (Function × Nat) → Bool
  | .error (.broken _) => true
  | _ => false

theorem broken_of_breaksOff {r : Except Halt (Function × Nat)} (h : breaksOff r = true) : ∃ fault, r = .error (.broken fault) := by
  unfold breaksOff at h
  split at h
  · exact ⟨_, rfl⟩
  · cases h

/-! ### The body and the count -/

/-- A profile leaves the statements of a body as they are. In front of them it puts two; those of an async function, if they
    can be read again, are then all in one future, bound to the declared type unless it mentions `impl`. A probe with the
    profile puts this around the wrapped statements and wraps no call in it: the timed calls that it adds are those it counts,
    those that are written in the callbacks, and those in the declared type that is repeated. -/
theorem profile_keeps_body (hcallable : options.Callable) (hbody : f.body = some body) (hform : IsBody body)
    (hconst : f.isConst = false) (name : String) :
    (∃ item, profileItem options name = .ok item ∧
      (f.isAsync = false → ∃ b, options.apply name f = .ok ({ f with body := some b }, 0) ∧ IsBody b ∧
        bodyStmts b = Make.itemStmt item :: guardStmt "start" :: bodyStmts body) ∧
      (f.isAsync = true → ∀ read, Grammar.parseBlock body.written = .ok read → ∃ b stmts,
        options.apply name f = .ok (({ f with body := some b } : Function).allowUnreachable, 0) ∧ IsBody b ∧
        bodyStmts b = [Make.itemStmt item, guardStmt "new", Make.lastExpr (scopeExpr stmts)] ∧
        (∀ T, f.returnType? = some T → ¬Occurs "impl" T.toTokens → stmts =
          [Make.letStmt (.node .typePat [.noAttrs, Make.namePat "__shallow_return", Make.symbol ":", T])
            (Make.blockExpr (bodyStmts body)), Make.lastExpr (Make.nameExpr "__shallow_return")]) ∧
        ((∀ T, f.returnType? = some T → Occurs "impl" T.toTokens) → stmts = bodyStmts body))) ∧
    ∀ strip p, probe f name (.profile options) strip = .ok p →
      ∃ f' item b, strip.elim (some f) f.strip? = some f' ∧ profileItem options name = .ok item ∧ p.item.body = some b ∧
      (let wrapped := (bodyStmts body).map (options.calls.wrapTree name)
      bodyStmts b = (if f.isAsync then [Make.itemStmt item, guardStmt "new",
          Make.lastExpr (scopeExpr (scopedStmts (bindingType? f) wrapped))]
        else Make.itemStmt item :: guardStmt "start" :: wrapped).map Tree.grouped) ∧
      (options.calls.wrapper = clock →
        p.item.timers = f'.timers + p.callsWrapped + options.callbackTimers + f.typeTimers) := by
  obtain ⟨item, hitem, -⟩ := profileItem_callable hcallable name
  obtain ⟨hstarts, henters⟩ := ProfileOptions.apply_eq hbody hconst hitem
  refine ⟨⟨item, hitem, fun hsync => ?_, fun hasync read hread => ?_⟩, fun strip p h => ?_⟩
  · exact ⟨_, hstarts hsync, hform.withStmts _, bodyStmts_withStmts hform _⟩
  · refine ⟨_, scopedStmts (bindingType? f) (bodyStmts body), henters hasync read hread, hform.withStmts _,
      bodyStmts_withStmts hform _, fun T hT hfree => ?_, fun hall => ?_⟩
    · rw [bindingType?_eq_some.mpr ⟨hT, hfree⟩]
      rfl
    · cases htype : bindingType? f with
      | none => rfl
      | some T =>
        obtain ⟨hT, hfree⟩ := bindingType?_eq_some.mp htype
        exact absurd (hall T hT) hfree
  · exact probe_profile hbody hform hcallable h

/-- Of `async fn f() -> u8 { g() }` a profile leaves one timed call, that of `g`. -/
theorem profile_keeps_body_async : ∃ f options body p,
    Reads .profile "async fn f() -> u8 \x7b g() \x7d" "time_limit = 1" f (.profile options) ∧
    options.calls.wrapper = clock ∧ options.Callable ∧ f.body = some body ∧ IsBody body ∧ f.isConst = false ∧
    f.isAsync = true ∧ probe f "f" (.profile options) none = .ok p ∧ p.callsWrapped = 1 ∧ p.item.timers = 1 := by
  obtain ⟨f, plan, hreads, htest⟩ := @reads_of_readsAnd .profile "async fn f() -> u8 \x7b g() \x7d" "time_limit = 1"
    (fun f plan => f.body.isSome && !f.isConst && f.isAsync && (probe f "f" plan none).toOption.any (·.callsWrapped == 1) && profiledAnd (fun options =>
      options.below.all isCallee && options.above.all isCallee &&
        f.timers + options.callbackTimers + f.typeTimers == 0) plan) (by decide +kernel)
  simp only [Bool.and_eq_true, Bool.not_eq_true'] at htest
  obtain ⟨⟨⟨⟨hbody, hconst⟩, hasync⟩, hprobe⟩, hplan⟩ := htest
  obtain ⟨options, rfl, hoptions⟩ := profile_of_profiledAnd hplan
  obtain ⟨body, hbody⟩ := Option.isSome_iff_exists.mp hbody
  simp only [Bool.and_eq_true, beq_iff_eq] at hoptions
  obtain ⟨⟨hbelow, habove⟩, hnone⟩ := hoptions
  have hclock := clock_of_parse hreads.2
  have hcallable := options.callable_of_all hbelow habove
  have hform := (Function.form_of_parse hreads.1).body _ hbody
  obtain ⟨p, hp, hcount⟩ := ok_of_any hprobe
  rw [beq_iff_eq] at hcount
  obtain ⟨f', item, b, hstrip, -, -, -, htimers⟩ := (profile_keeps_body hcallable hbody hform hconst "f").2 none p hp
  cases hstrip
  have htwo := htimers hclock
  exact ⟨f, options, body, p, hreads, hclock, hcallable, hbody, hform, hconst, hasync, hp, hcount, by omega⟩

/-- In `async fn f() -> u8 { 'a: loop { break 'a g() } }` the call is wrapped, and what then stands behind the label
    cannot be read: the prologue is not put in, and the probe breaks off. -/
theorem profile_labelled_break : ∃ f options g fault,
    Reads .profile "async fn f() -> u8 \x7b 'a: loop \x7b break 'a g() \x7d \x7d" "time_limit = 1" f (.profile options) ∧
    options.Callable ∧ f.body.isSome = true ∧ f.isConst = false ∧ f.isAsync = true ∧
    options.calls.apply "f" f = .ok (g, 1) ∧ options.apply "f" g = .error (.broken fault) ∧
    probe f "f" (.profile options) none = .error (.broken fault) := by
  obtain ⟨f, plan, hreads, htest⟩ := @reads_of_readsAnd .profile
    "async fn f() -> u8 \x7b 'a: loop \x7b break 'a g() \x7d \x7d" "time_limit = 1"
    (fun f plan => f.body.isSome && !f.isConst && f.isAsync && f.body.any (fun body => (f.render body).isOk) &&
      profiledAnd (fun options =>
      options.below.all isCallee && options.above.all isCallee &&
        (options.calls.apply "f" f).toOption.any fun r => r.2 == 1 && breaksOff (options.apply "f" r.1)) plan)
    (by decide +kernel)
  simp only [Bool.and_eq_true, Bool.not_eq_true'] at htest
  obtain ⟨⟨⟨⟨hsome, hconst⟩, hasync⟩, hprints⟩, hplan⟩ := htest
  obtain ⟨options, rfl, hoptions⟩ := profile_of_profiledAnd hplan
  obtain ⟨body, hbody⟩ := Option.isSome_iff_exists.mp hsome
  simp only [Bool.and_eq_true] at hoptions
  obtain ⟨⟨hbelow, habove⟩, happly⟩ := hoptions
  obtain ⟨⟨g, n⟩, hg, hbroken⟩ := ok_of_any happly
  obtain ⟨hn, hbreaks⟩ := Bool.and_eq_true_iff.mp hbroken
  obtain rfl : n = 1 := beq_iff_eq.mp hn
  obtain ⟨fault, hfault⟩ := broken_of_breaksOff hbreaks
  rw [hbody, Option.any_some] at hprints
  obtain ⟨before, hbefore⟩ := isOk_iff.mp hprints
  have htransform : (Plan.profile options).transform "f" f = .error (.broken fault) := by
    rw [Plan.transform, hg]
    change (options.apply "f" g).bind _ = _
    rw [hfault]
    rfl
  refine ⟨f, options, g, fault, hreads, options.callable_of_all hbelow habove, hsome, hconst, hasync, hg, hfault, ?_⟩
  rw [probe_eq hbody rfl, hbefore]
  exact rebuild_of_halt before htransform

end CallProbe.Probe
