import AiOrg.Stream.CheckStream
import AiOrg.Log.Verdict

/-!
# Replay is isolated

What one event does is said once (`applyEvent_cases`): it raises on every state, is rejected on
every typed state with a diagnostic of its line, or has one effect on all of them. So a line has a
verdict of its own, a replay is the run of these verdicts (`replayLines_eq_run`), and it is isolated
exactly when no line raises (`replay_isolated_iff`).
-/

namespace AiOrg

open List

namespace CheckStream

theorem fail_ne_ok {α : Type} {code location rule : String} {a : α} :
    fail code location rule ≠ .ok a := nofun

theorem validateAnchor_ok {oid path : Json} (h : validateAnchor oid path = .ok ()) :
    ∃ o p, oid = .str o ∧ path = .str p ∧ isOid o = true ∧ isSourcePath p = true := by
  unfold validateAnchor at h
  split at h
  · rename_i o
    split_ifs at h with ho hp
    · exact absurd h fail_ne_ok
    · exact absurd h fail_ne_ok
    · cases path <;> simp_all [isPermittedSourcePath]
  · exact absurd h fail_ne_ok

theorem decodeEncoded_encode {raw : Bytes} (h : raw.length ≤ maxRawStreamBytes) :
    decodeEncoded (Base64.encode raw) = .ok raw := by
  have hascii : (Base64.encode raw).all (fun c => decide (c.toNat < 128)) = true := by
    simpa using Base64.ascii_encode raw
  unfold decodeEncoded
  rw [hascii, Base64.wellFormed_encode, Base64.decodedSize_encode, Base64.decode_encode]
  simp [Nat.not_lt.2 h]

theorem bodyFromRawStream_ok (py : PyLib) {raw : Bytes} {oid path : String} {body : Json}
    (h : bodyFromRawStream raw oid path = .ok body) :
    decodeRawStream body = .ok raw ∧ bodyText py body "source_path" = path
      ∧ bodyText py body "source_oid" = oid := by
  unfold bodyFromRawStream at h
  rcases hanchor : validateAnchor (.str oid) (.str path) with e | u
  · rw [hanchor] at h
    exact absurd h nofun
  · rw [hanchor] at h
    simp only [bind, Except.bind] at h
    split_ifs at h with hsize
    · exact absurd h fail_ne_ok
    · obtain rfl := Except.ok.inj h
      refine ⟨?_, rfl, rfl⟩
      have hdecode := decodeEncoded_encode (Nat.not_lt.1 hsize)
      simp [decodeRawStream, bodyFields, Fields.contains, Fields.get, List.lookup, hanchor,
        hdecode, bind, Except.bind]

theorem Typed.counter {checks : DeclaredChecks} {state : Fields} {var : String}
    (h : Typed checks state) (hvar : checks.lookup var = some .counter) :
    ∃ n, state.get var = .int n := by
  have hadmits := h var .counter hvar
  unfold DeclaredType.admits at hadmits
  split at hadmits <;> simp_all

theorem Typed.set {checks : DeclaredChecks} {state : Fields} (h : Typed checks state)
    {var : String} {declared : DeclaredType} {value : Json}
    (hvar : checks.lookup var = some declared) (hvalue : declared.admits value = true) :
    Typed checks (state.set var value) := by
  intro k declared' hk
  by_cases hkv : k = var
  · subst hkv
    rw [Fields.get_set_self, ← Option.eq_some_unique hvar hk]
    exact hvalue
  · rw [Fields.get_set_of_ne _ _ hkv]
    exact h k declared' hk

theorem Effect.run_typed {checks : DeclaredChecks} {state : Fields} {effect : Effect}
    (h : effect.Admitted checks) (hstate : Typed checks state) :
    Typed checks (effect.run state) := by
  cases effect with
  | put var value =>
    obtain ⟨declared, hvar, hvalue⟩ := h
    exact hstate.set hvar hvalue
  | add var delta =>
    obtain ⟨n, hn⟩ := hstate.counter h
    simp only [Effect.run, hn]
    exact hstate.set h rfl

variable {py : PyLib} {checks : DeclaredChecks}

/-- The check an event names, and an operation that cannot be hashed. -/
def Unhashable (checks : DeclaredChecks) (event : Fields) : Prop :=
  ∃ var, event.get "var" = .str var ∧ (checks.lookup var).isSome = true ∧
    (event.get "op").hashable = false

inductive Outcome (checks : DeclaredChecks) (event : Fields) : Prop where
  | unhashable (h : Unhashable checks event)
  | rejected (h : ∀ path line, ∃ diagnostic : PhysicalLineDiagnostic, diagnostic.line = line ∧
      ∀ state, Typed checks state →
        applyEvent state event checks path line = .ok (.error diagnostic))
  | applied (effect : Effect) (hadmitted : effect.Admitted checks)
      (hvar : event.get "var" = .str effect.var)
      (h : ∀ state path line, Typed checks state →
        applyEvent state event checks path line = .ok (.ok (effect.run state)))

theorem applySet_cases (event : Fields) {var : String} {declared : DeclaredType}
    (hvar : checks.lookup var = some declared) :
    (∀ path line, ∃ diagnostic : PhysicalLineDiagnostic, diagnostic.line = line ∧
      ∀ state, applySet state event var declared path line = .error diagnostic) ∨
    ∃ value, (Effect.put var value).Admitted checks ∧
      ∀ state path line, applySet state event var declared path line =
        .ok ((Effect.put var value).run state) := by
  unfold applySet
  rcases declared with _ | _ <;> rcases event.get "value" with _ | _ | n | _ | s | _ | _
  case counter.int => exact Or.inr ⟨.int n, ⟨_, hvar, rfl⟩, fun _ _ _ => rfl⟩
  case text.str => exact Or.inr ⟨.str s, ⟨_, hvar, rfl⟩, fun _ _ _ => rfl⟩
  all_goals exact Or.inl fun path line => ⟨_, rfl, fun _ => rfl⟩

theorem applyDelta_cases (event : Fields) (op : String) {var : String} {declared : DeclaredType}
    (hvar : checks.lookup var = some declared) :
    (∀ path line, ∃ diagnostic : PhysicalLineDiagnostic, diagnostic.line = line ∧
      ∀ state, applyDelta state event var op declared path line = .ok (.error diagnostic)) ∨
    ∃ delta, (Effect.add var delta).Admitted checks ∧
      ∀ state path line, Typed checks state → applyDelta state event var op declared path line =
        .ok (.ok ((Effect.add var delta).run state)) := by
  unfold applyDelta
  rcases declared with _ | _
  · rcases event.getD "value" (.int 1) with _ | _ | delta | _ | _ | _ | _
    case int =>
      refine Or.inr ⟨if op = "inc" then delta else -delta, hvar, fun state path line hstate => ?_⟩
      obtain ⟨n, hn⟩ := hstate.counter hvar
      simp only [hn, Effect.run]
    all_goals exact Or.inl fun path line => ⟨_, rfl, fun _ => rfl⟩
  · exact Or.inl fun path line => ⟨_, rfl, fun _ => rfl⟩

theorem applyEvent_delta {event : Fields} {var op : String} {declared : DeclaredType}
    (hname : event.get "var" = .str var) (hempty : var ≠ "")
    (hvar : checks.lookup var = some declared) (hop : event.get "op" = .str op)
    (hdelta : op = "inc" ∨ op = "dec") (state : Fields) (path : String) (line : ℕ) :
    applyEvent state event checks path line = applyDelta state event var op declared path line := by
  unfold applyEvent
  rcases hdelta with rfl | rfl <;> simp [hname, hempty, hvar, hop, Json.hashable]

/-- Every event has one outcome, whatever the state. -/
theorem applyEvent_cases (checks : DeclaredChecks) (event : Fields) : Outcome checks event := by
  have hdiagnosed : ∀ rule message : String,
      (∀ state path line, applyEvent state event checks path line
        = .ok (.error (invalidEvent path line rule message))) → Outcome checks event :=
    fun rule message h => .rejected fun path line => ⟨_, rfl, fun state _ => h state path line⟩
  rcases hname : event.get "var" with _ | _ | _ | _ | var | _ | _
  case str =>
    by_cases hempty : var = ""
    · exact hdiagnosed "declared-variable" "has invalid var" fun state path line => by
        simp [applyEvent, hname, hempty]
    rcases hvar : checks.lookup var with _ | declared
    · exact hdiagnosed "declared-variable" ("writes undeclared variable " ++ var)
        fun state path line => by simp [applyEvent, hname, hempty, hvar]
    by_cases hset : event.get "op" = .str "set"
    · have happly : ∀ state path line, applyEvent state event checks path line =
          .ok (applySet state event var declared path line) := fun state path line => by
        simp [applyEvent, hname, hempty, hvar, hset]
      rcases applySet_cases event hvar with h | ⟨value, hadmitted, h⟩
      · refine .rejected fun path line => ?_
        obtain ⟨d, hline, hd⟩ := h path line
        exact ⟨d, hline, fun state _ => by rw [happly, hd]⟩
      · exact .applied _ hadmitted hname fun state path line _ => by rw [happly, h]
    by_cases hdelta : event.get "op" = .str "inc" ∨ event.get "op" = .str "dec"
    · obtain ⟨op, hop, hdelta⟩ : ∃ op, event.get "op" = .str op ∧ (op = "inc" ∨ op = "dec") := by
        rcases hdelta with h | h
        · exact ⟨_, h, Or.inl rfl⟩
        · exact ⟨_, h, Or.inr rfl⟩
      have happly := applyEvent_delta hname hempty hvar hop hdelta
      rcases applyDelta_cases event op hvar with h | ⟨delta, hadmitted, h⟩
      · refine .rejected fun path line => ?_
        obtain ⟨d, hline, hd⟩ := h path line
        exact ⟨d, hline, fun state _ => by rw [happly, hd]⟩
      · exact .applied _ hadmitted hname fun state path line hstate => by
          rw [happly, h state path line hstate]
    obtain ⟨hinc, hdec⟩ := not_or.1 hdelta
    rcases hhash : (event.get "op").hashable with _ | _
    · exact .unhashable ⟨var, hname, by rw [hvar]; rfl, hhash⟩
    · exact hdiagnosed "event-operation" "op must be set, inc, or dec" fun state path line => by
        simp [applyEvent, hname, hempty, hvar, hset, hhash, hinc, hdec]
  all_goals
    refine hdiagnosed "declared-variable" "has invalid var" fun state path line => ?_
    simp [applyEvent, hname]

/-! ### One line -/

theorem decodeRecord_line {record : Bytes} {path : String} {line : ℕ}
    {diagnostic : PhysicalLineDiagnostic}
    (h : decodeRecord py record path line = .error diagnostic) : diagnostic.line = line := by
  unfold decodeRecord at h
  split_ifs at h
  · exact (Except.error.inj h) ▸ rfl
  · split at h
    · exact (Except.error.inj h) ▸ rfl
    · split at h <;> first | exact (Except.error.inj h) ▸ rfl | exact absurd h nofun

theorem decodeRecord_ok_congr {record : Bytes} {path : String} {line : ℕ} {event : Fields}
    (h : decodeRecord py record path line = .ok event) (path' : String) (line' : ℕ) :
    decodeRecord py record path' line' = .ok event := by
  unfold decodeRecord at h ⊢
  split_ifs at h ⊢
  split at h
  · exact absurd h nofun
  · split at h <;> simp_all

def effectOn (py : PyLib) (checks : DeclaredChecks) (path : String) (event : Fields) (line : ℕ)
    (s : Fields × Fields) : Fields × Fields :=
  match applyEvent s.1 event checks path line with
  | .ok (.ok state) => (state, s.2.set (py.str (event.get "var")) (eventAnchor path line))
  | _ => s

def lineVerdict (py : PyLib) (checks : DeclaredChecks) (path : String) (physical : Bytes × ℕ) :
    Verdict (Fields × Fields) PhysicalLineDiagnostic :=
  if recordIsBlank physical.1 then .blank
  else match decodeRecord py physical.1 path physical.2 with
  | .error diagnostic => .rejected diagnostic
  | .ok event =>
    match applyEvent checks.defaults event checks path physical.2 with
    | .ok (.error diagnostic) => .rejected diagnostic
    | _ => .applied (effectOn py checks path event physical.2)

theorem lookup_defaults (checks : DeclaredChecks) (var : String) :
    checks.defaults.lookup var = (checks.lookup var).map DeclaredType.default := by
  unfold DeclaredChecks.defaults
  induction checks with
  | nil => rfl
  | cons check checks ih =>
    rw [map_cons, Fields.lookup_cons_eq, ih, lookup_cons]
    by_cases h : var = check.1
    · simp [h]
    · rw [if_neg h, beq_eq_false_iff_ne.2 h]

theorem defaults_typed (checks : DeclaredChecks) : Typed checks checks.defaults := by
  intro var declared hvar
  rw [Fields.get, lookup_defaults, hvar]
  cases declared <;> rfl

def projectionOf (s : (Fields × Fields) × List PhysicalLineDiagnostic) : PatchworkCheckProjection :=
  ⟨s.1.1, s.1.2, s.2⟩

/-- What one line can be: a blank, a poisoned record, a record with a diagnostic of its line, or a
record with an effect. -/
inductive LineOutcome (py : PyLib) (checks : DeclaredChecks) (path : String)
    (physical : Bytes × ℕ) : Prop where
  | blank (hblank : recordIsBlank physical.1 = true)
      (hverdict : lineVerdict py checks path physical = .blank)
  | poisoned (h : Poisoned py checks physical.1)
  | rejected (diagnostic : PhysicalLineDiagnostic) (hline : diagnostic.line = physical.2)
      (hblank : recordIsBlank physical.1 = false) (happlies : recordApplies py checks physical.1 = false)
      (hverdict : lineVerdict py checks path physical = .rejected diagnostic)
      (hreplay : ∀ projection, Typed checks projection.state →
        replayLine py checks path projection physical =
          .ok { projection with diagnostics := projection.diagnostics ++ [diagnostic] })
  | applied (event : Fields) (effect : Effect) (hadmitted : effect.Admitted checks)
      (hvar : event.get "var" = .str effect.var)
      (hblank : recordIsBlank physical.1 = false) (happlies : recordApplies py checks physical.1 = true)
      (hverdict : lineVerdict py checks path physical =
        .applied (effectOn py checks path event physical.2))
      (hreplay : ∀ projection, Typed checks projection.state →
        replayLine py checks path projection physical =
          .ok { projection with
            state := effect.run projection.state
            lastEvents := projection.lastEvents.set effect.var (eventAnchor path physical.2) } ∧
        effectOn py checks path event physical.2 (projection.state, projection.lastEvents) =
          (effect.run projection.state,
            projection.lastEvents.set effect.var (eventAnchor path physical.2)))

theorem recordApplies_of_decode (checks : DeclaredChecks) {record : Bytes} {path : String} {line : ℕ} {event : Fields}
    (hblank : recordIsBlank record = false)
    (h : decodeRecord py record path line = .ok event) :
    recordApplies py checks record =
      match applyEvent checks.defaults event checks "" 0 with
      | .ok (.ok _) => true
      | _ => false := by
  unfold recordApplies
  rw [hblank, decodeRecord_ok_congr h "" 0]
  rfl

theorem line_cases (py : PyLib) (checks : DeclaredChecks) (path : String)
    (physical : Bytes × ℕ) : LineOutcome py checks path physical := by
  obtain ⟨record, line⟩ := physical
  rcases hblank : recordIsBlank record with _ | _
  · rcases hdecode : decodeRecord py record path line with diagnostic | event
    · refine .rejected diagnostic (decodeRecord_line hdecode) hblank ?_ ?_ fun projection _ => ?_
      · unfold recordApplies
        rcases h : decodeRecord py record "" 0 with _ | event
        · simp
        · rw [decodeRecord_ok_congr h path line] at hdecode
          exact absurd hdecode nofun
      · simp only [lineVerdict, hblank, hdecode, Bool.false_eq_true, ↓reduceIte]
      · simp only [replayLine, hblank, hdecode, Bool.false_eq_true, ↓reduceIte]
    · have happlies := recordApplies_of_decode checks hblank hdecode
      have hdefaults := defaults_typed checks
      rcases applyEvent_cases checks event with hunhashable | h | ⟨effect, hadmitted, hvar, h⟩
      · exact .poisoned ⟨hblank, event, decodeRecord_ok_congr hdecode _ _, hunhashable⟩
      · obtain ⟨diagnostic, hline, hd⟩ := h path line
        obtain ⟨scratch, -, hscratch⟩ := h "" 0
        refine .rejected diagnostic hline hblank ?_ ?_ fun projection hstate => ?_
        · rw [happlies, hscratch _ hdefaults]
        · simp only [lineVerdict, hblank, hdecode, hd _ hdefaults, Bool.false_eq_true, ↓reduceIte]
        · simp only [replayLine, hblank, hdecode, hd _ hstate, Bool.false_eq_true, ↓reduceIte]
      · refine .applied event effect hadmitted hvar hblank ?_ ?_ fun projection hstate => ⟨?_, ?_⟩
        · rw [happlies, h _ _ _ hdefaults]
        · simp only [lineVerdict, hblank, hdecode, h _ _ _ hdefaults, Bool.false_eq_true,
            ↓reduceIte]
        · simp only [replayLine, hblank, hdecode, h _ _ _ hstate, hvar, PyLib.str_str,
            Bool.false_eq_true, ↓reduceIte]
        · simp only [effectOn, h _ _ _ hstate, hvar, PyLib.str_str]
  · exact .blank hblank (by simp only [lineVerdict, hblank, ↓reduceIte])

theorem replayLine_eq_step {path : String} {physical : Bytes × ℕ}
    (h : ¬ Poisoned py checks physical.1) (s : (Fields × Fields) × List PhysicalLineDiagnostic)
    (hs : Typed checks s.1.1) :
    replayLine py checks path (projectionOf s) physical =
        .ok (projectionOf (Verdict.step s (lineVerdict py checks path physical))) ∧
      Typed checks (Verdict.step s (lineVerdict py checks path physical)).1.1 := by
  rcases line_cases py checks path physical with
    ⟨hblank, hverdict⟩ | hpoison | ⟨diagnostic, -, hblank, -, hverdict, hreplay⟩ |
    ⟨event, effect, hadmitted, hvar, hblank, -, hverdict, hreplay⟩
  · rw [hverdict]
    exact ⟨by simp [replayLine, hblank, Verdict.step], hs⟩
  · exact absurd hpoison h
  · rw [hverdict]
    exact ⟨hreplay _ hs, hs⟩
  · obtain ⟨hok, heffect⟩ := hreplay (projectionOf s) hs
    have hstep : effectOn py checks path event physical.2 s.1 =
        (effect.run s.1.1, s.1.2.set effect.var (eventAnchor path physical.2)) := heffect
    rw [hverdict, hok]
    simp only [Verdict.step, hstep]
    exact ⟨rfl, effect.run_typed hadmitted hs⟩

/-- Lines that do not raise are replayed as the run of their verdicts. -/
theorem replayLines_eq_run (path : String) {lines : List (Bytes × ℕ)}
    (h : ∀ l ∈ lines, ¬ Poisoned py checks l.1) (s : (Fields × Fields) × List PhysicalLineDiagnostic)
    (hs : Typed checks s.1.1) :
    replayLines py checks path (projectionOf s) lines =
        .ok (projectionOf (Verdict.run (lineVerdict py checks path) s lines)) ∧
      Typed checks (Verdict.run (lineVerdict py checks path) s lines).1.1 := by
  let parts := fun p : PatchworkCheckProjection => ((p.state, p.lastEvents), p.diagnostics)
  let next := fun p l => projectionOf (Verdict.step (parts p) (lineVerdict py checks path l))
  have hrun : lines.foldl next (projectionOf s) =
      projectionOf (Verdict.run (lineVerdict py checks path) s lines) :=
    foldl_hom projectionOf fun _ _ => rfl
  have hfold := foldlM_eq_foldl (fun p => Typed checks p.state) (replayLine py checks path) next
    lines (fun l hl p hp => replayLine_eq_step (h l hl) (parts p) hp) (projectionOf s) hs
  rwa [hrun] at hfold

theorem isApplied_eq {path : String} {physical : Bytes × ℕ}
    (h : ¬ Poisoned py checks physical.1) :
    (lineVerdict py checks path physical).isApplied = recordApplies py checks physical.1 := by
  rcases line_cases py checks path physical with
    ⟨hblank, hverdict⟩ | hpoison | ⟨_, -, -, happlies, hverdict, -⟩ |
    ⟨_, _, -, -, -, happlies, hverdict, -⟩
  · rw [hverdict, recordApplies, hblank]
    rfl
  · exact absurd hpoison h
  · rw [hverdict, happlies]
    rfl
  · rw [hverdict, happlies]
    rfl

theorem diagnostic_lines (path : String) {lines : List (Bytes × ℕ)}
    (h : ∀ l ∈ lines, ¬ Poisoned py checks l.1) :
    (lines.filterMap fun l => (lineVerdict py checks path l).diagnostic?).map (·.line) =
      (lines.filter fun l => !recordIsBlank l.1 && !recordApplies py checks l.1).map (·.2) := by
  induction lines with
  | nil => rfl
  | cons l lines ih =>
    obtain ⟨hl, hlines⟩ := forall_mem_cons.1 h
    rw [filterMap_cons, filter_cons]
    rcases line_cases py checks path l with
      ⟨hblank, hverdict⟩ | hpoison | ⟨diagnostic, hline, hblank, happlies, hverdict, -⟩ |
      ⟨_, _, -, -, hblank, happlies, hverdict, -⟩
    · simpa [hverdict, hblank, Verdict.diagnostic?] using ih hlines
    · exact absurd hpoison hl
    · simpa [hverdict, hblank, happlies, hline, Verdict.diagnostic?] using ih hlines
    · simpa [hverdict, hblank, happlies, Verdict.diagnostic?] using ih hlines

theorem replayLines_isolated {path : String} {start : Fields} {lines : List (Bytes × ℕ)}
    (hstart : Typed checks start) (h : ∀ l ∈ lines, ¬ Poisoned py checks l.1) :
    ∃ projection, replayLines py checks path ⟨start, [], []⟩ lines = .ok projection ∧
      Isolated py checks path start lines projection := by
  let verdict := lineVerdict py checks path
  let s : (Fields × Fields) × List PhysicalLineDiagnostic := ((start, []), [])
  refine ⟨projectionOf (Verdict.run verdict s lines), (replayLines_eq_run path h s hstart).1, ?_, ?_⟩
  · rw [← diagnostic_lines path h]
    exact congrArg _ (Verdict.run_diagnostics verdict lines s)
  · have happlied : (lines.filter fun l => recordApplies py checks l.1) =
        lines.filter fun l => (verdict l).isApplied :=
      filter_congr fun l hl => (isApplied_eq (h l hl)).symm
    have hfilter : ∀ l ∈ lines.filter fun l => recordApplies py checks l.1,
        ¬ Poisoned py checks l.1 := fun l hl => h l (mem_of_mem_filter hl)
    have hrun := (replayLines_eq_run path hfilter s hstart).1
    rw [happlied, Verdict.run_state verdict lines s []] at hrun
    rw [happlied]
    exact hrun

theorem applyEvent_of_unhashable (hnames : checks.lookup "" = none) {event : Fields}
    (h : Unhashable checks event) (state : Fields) (path : String) (line : ℕ) :
    applyEvent state event checks path line = .error .typeError := by
  obtain ⟨var, hname, hdeclared, hop⟩ := h
  obtain ⟨declared, hvar⟩ := Option.isSome_iff_exists.1 hdeclared
  have hempty : var ≠ "" := by
    rintro rfl
    exact absurd (hnames.symm.trans hvar) nofun
  have hset : event.get "op" ≠ .str "set" := by
    intro hset
    rw [hset] at hop
    exact absurd hop nofun
  simp [applyEvent, hname, hempty, hvar, hset, hop]

theorem replayLine_of_poisoned (hnames : checks.lookup "" = none) {path : String}
    {physical : Bytes × ℕ} (h : Poisoned py checks physical.1)
    (projection : PatchworkCheckProjection) :
    replayLine py checks path projection physical = .error .typeError := by
  obtain ⟨hblank, event, hdecode, hunhashable⟩ := h
  simp only [replayLine, hblank, decodeRecord_ok_congr hdecode path physical.2,
    applyEvent_of_unhashable hnames hunhashable, Bool.false_eq_true, ↓reduceIte]

theorem not_poisoned_of_replayLines_ok (hnames : checks.lookup "" = none) {path : String}
    {p q : PatchworkCheckProjection} {lines : List (Bytes × ℕ)}
    (h : replayLines py checks path p lines = .ok q) : ∀ l ∈ lines, ¬ Poisoned py checks l.1 := by
  intro l hl hpoison
  obtain ⟨p', q', hok⟩ := step_ok_of_foldlM_ok h l hl
  rw [replayLine_of_poisoned hnames hpoison] at hok
  exact absurd hok nofun

theorem validatedCheck_name {entry : String × Json} {check : String × DeclaredType}
    (h : validatedCheck entry = .ok check) : check.1 ≠ "" := by
  have hempty : isCheckName "".toList = false := rfl
  unfold validatedCheck at h
  split_ifs at h with hname hhash hcounter htext
  · exact absurd h fail_ne_ok
  · obtain rfl := Except.ok.inj h
    intro hentry
    rw [show entry.1 = "" from hentry, hempty] at hname
    exact hname rfl
  · obtain rfl := Except.ok.inj h
    intro hentry
    rw [show entry.1 = "" from hentry, hempty] at hname
    exact hname rfl
  · exact absurd h fail_ne_ok

theorem lookup_empty_of_validatedRegistry {registry : Json}
    (h : validatedRegistry registry = .ok checks) : checks.lookup "" = none := by
  unfold validatedRegistry at h
  split at h
  · rename_i entries
    induction entries generalizing checks with
    | nil =>
      obtain rfl := Except.ok.inj h
      rfl
    | cons entry entries ih =>
      rw [mapM_cons] at h
      rcases hcheck : validatedCheck entry with e | check
      · rw [hcheck] at h
        exact absurd h nofun
      rcases hrest : entries.mapM validatedCheck with e | rest
      · rw [hcheck, hrest] at h
        exact absurd h nofun
      rw [hcheck, hrest] at h
      obtain rfl := Except.ok.inj h
      have hname := validatedCheck_name hcheck
      rw [lookup_cons, beq_eq_false_iff_ne.2 hname.symm]
      exact ih hrest
  · exact absurd h fail_ne_ok

theorem initialEntry_typed {state state' : Fields} {entry : String × Json}
    (hstate : Typed checks state) (h : initialEntry checks state entry = .ok state') :
    Typed checks state' := by
  unfold initialEntry at h
  split at h
  · exact absurd h fail_ne_ok
  · rename_i hvar
    split at h
    · rename_i n hn
      exact Except.ok.inj h ▸ hstate.set hvar (by rw [hn]; rfl)
    · exact absurd h fail_ne_ok
  · rename_i hvar
    split at h
    · rename_i s hs
      exact Except.ok.inj h ▸ hstate.set hvar (by rw [hs]; rfl)
    · exact absurd h fail_ne_ok

theorem validatedInitialState_typed {initialState : Json} {state : Fields}
    (h : validatedInitialState checks initialState = .ok state) : Typed checks state := by
  unfold validatedInitialState at h
  split at h
  · exact Except.ok.inj h ▸ defaults_typed checks
  · rename_i entries
    have hdefaults := defaults_typed checks
    generalize checks.defaults = start at h hdefaults
    induction entries generalizing start with
    | nil => exact Except.ok.inj h ▸ hdefaults
    | cons entry entries ih =>
      rw [foldlM_cons] at h
      rcases hentry : initialEntry checks start entry with e | next
      · rw [hentry] at h
        exact absurd h nofun
      · rw [hentry] at h
        exact ih next h (initialEntry_typed hdefaults hentry)
  · exact absurd h fail_ne_ok

theorem replay_eq_replayLines {body registry initialState : Json} {raw : Bytes} {start : Fields}
    (hraw : decodeRawStream body = .ok raw) (hregistry : validatedRegistry registry = .ok checks)
    (hstart : validatedInitialState checks initialState = .ok start) :
    replay py body registry initialState =
      replayLines py checks (bodyText py body "source_path") ⟨start, [], []⟩ (physicalLines raw) := by
  unfold replay
  rw [hraw]
  simp only [bind, Except.bind, hregistry, hstart]

theorem forall_physicalLines (raw : Bytes) (P : Bytes → Prop) :
    (∀ l ∈ physicalLines raw, P l.1) ↔ ∀ record ∈ physicalRecords raw, P record := by
  have hmap : (physicalLines raw).map Prod.fst = physicalRecords raw := zipIdx_map_fst 1 _
  rw [← hmap, forall_mem_map]

/-- A replay returns an isolated projection exactly when no record is poisoned. -/
theorem replay_isolated_iff {raw : Bytes} {oid path : String} {body registry initialState : Json}
    {start : Fields} (hbody : bodyFromRawStream raw oid path = .ok body)
    (hregistry : validatedRegistry registry = .ok checks)
    (hstart : validatedInitialState checks initialState = .ok start) :
    (∃ projection, replay py body registry initialState = .ok projection ∧
        Isolated py checks path start (physicalLines raw) projection) ↔
      ∀ record ∈ physicalRecords raw, ¬ Poisoned py checks record := by
  obtain ⟨hraw, hpath, -⟩ := bodyFromRawStream_ok py hbody
  rw [replay_eq_replayLines hraw hregistry hstart, hpath, ← forall_physicalLines]
  constructor
  · rintro ⟨projection, hok, -⟩
    exact not_poisoned_of_replayLines_ok (lookup_empty_of_validatedRegistry hregistry) hok
  · exact replayLines_isolated (validatedInitialState_typed hstart)

def counterRegistry : Json := .obj [("a", .str "counter")]

/-- The commit a sample body is anchored at. -/
def sampleOid : String := "0123456789abcdef0123456789abcdef01234567"

def sampleBody (raw : Bytes) : Json :=
  .obj [("raw_stream_base64", .str (String.ofList (Base64.encode raw))),
    ("source_oid", .str sampleOid), ("source_path", .str legacyPath)]

/-- An increment, and a line that is no JSON. -/
def brokenTail : Bytes := asciiBytes "\x7b\"var\":\"a\",\"op\":\"inc\"\x7d\r\nbroken"

theorem replay_isolated_brokenTail :
    ∃ projection, replay asciiLib (sampleBody brokenTail) counterRegistry .null = .ok projection ∧
      Isolated asciiLib [("a", .counter)] legacyPath [("a", .int 0)] (physicalLines brokenTail)
        projection :=
  (@replay_isolated_iff _ _ _ sampleOid _ _ _ _ _ (by decide +kernel) (by decide +kernel)
    (by decide +kernel)).2 (by decide +kernel)

/-- An event whose operation is a list, and a valid event after it. -/
def listOperation : Bytes :=
  asciiBytes ("\x7b\"var\":\"a\",\"op\":[]\x7d\n" ++
    "\x7b\"var\":\"a\",\"op\":\"set\",\"value\":1\x7d\n")

theorem listOperation_stops_replay :
    bodyFromRawStream listOperation sampleOid legacyPath = .ok (sampleBody listOperation) ∧
      validatedRegistry counterRegistry = .ok [("a", .counter)] ∧
      ¬ ∃ projection,
        replay asciiLib (sampleBody listOperation) counterRegistry .null = .ok projection := by
  have hraises : replay asciiLib (sampleBody listOperation) counterRegistry .null
      = .error .typeError := by decide +kernel
  refine ⟨by decide +kernel, by decide +kernel, ?_⟩
  rintro ⟨projection, hok⟩
  rw [hraises] at hok
  exact absurd hok nofun

end CheckStream

end AiOrg
