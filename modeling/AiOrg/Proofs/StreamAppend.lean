import AiOrg.Proofs.CheckStream

/-!
# An append adds one line

The framing of an appended stream is the framing of the prior bytes and one more record
(`physicalRecords_append`), so its replay is the replay of the prior stream and one more event. A
successful append therefore has the meaning of its one event exactly when the prior stream can be
replayed at all (`prepareAppend_extends_iff`).
-/

namespace AiOrg

open List

namespace CheckStream

/-- Whether a byte ends a physical line. -/
def IsTerminator (byte : UInt8) : Prop := byte = 0x0a ∨ byte = 0x0d

instance (byte : UInt8) : Decidable (IsTerminator byte) := inferInstanceAs (Decidable (_ ∨ _))

/-- `appendSeparator` for prior bytes that follow an open record. -/
def separatorFrom (record prior : Bytes) : Bytes :=
  match prior.getLast? with
  | none => if record.isEmpty then [] else [0x0a]
  | some byte => if IsTerminator byte then [] else [0x0a]

theorem separatorFrom_nil (prior : Bytes) : separatorFrom [] prior = appendSeparator prior := by
  unfold separatorFrom appendSeparator
  rcases prior.getLast? with _ | byte
  · rfl
  · rfl

theorem separatorFrom_cons_terminator {record prior : Bytes} {byte : UInt8}
    (h : IsTerminator byte) : separatorFrom record (byte :: prior) = separatorFrom [] prior := by
  unfold separatorFrom
  rw [getLast?_cons]
  rcases prior.getLast? with _ | last
  · simp [h]
  · rfl

theorem separatorFrom_cons {record prior : Bytes} {byte : UInt8} (h : ¬ IsTerminator byte) :
    separatorFrom record (byte :: prior) = separatorFrom (record ++ [byte]) prior := by
  unfold separatorFrom
  rw [getLast?_cons]
  rcases prior.getLast? with _ | last
  · simp [h]
  · rfl

theorem physicalRecordsFrom_lf (record rest : Bytes) :
    physicalRecordsFrom record (0x0a :: rest) = record :: physicalRecordsFrom [] rest := by
  rw [physicalRecordsFrom.eq_def]
  simp

theorem physicalRecordsFrom_line (record : Bytes) :
    ∀ {clean : Bytes}, (∀ byte ∈ clean, ¬ IsTerminator byte) →
      physicalRecordsFrom record (clean ++ [0x0a]) = [record ++ clean]
  | [], _ => by
    rw [nil_append, physicalRecordsFrom_lf, append_nil]
    rfl
  | byte :: clean, h => by
    obtain ⟨hbyte, hclean⟩ := forall_mem_cons.1 h
    obtain ⟨hlf, hcr⟩ := not_or.1 hbyte
    rw [cons_append, physicalRecordsFrom.eq_def]
    simp only [hlf, hcr, ↓reduceIte]
    rw [physicalRecordsFrom_line (record ++ [byte]) hclean, append_assoc]
    rfl

theorem physicalRecordsFrom_append (record prior : Bytes) {clean : Bytes} (hne : clean ≠ [])
    (hclean : ∀ byte ∈ clean, ¬ IsTerminator byte) :
    physicalRecordsFrom record (prior ++ separatorFrom record prior ++ clean ++ [0x0a]) =
      physicalRecordsFrom record prior ++ [clean] := by
  have hline := physicalRecordsFrom_line [] hclean
  rw [nil_append] at hline
  induction record, prior using physicalRecordsFrom.induct with
  | case1 record hrecord =>
    obtain rfl := List.isEmpty_iff.1 hrecord
    exact hline
  | case2 record hrecord =>
    simp only [separatorFrom, getLast?_nil, hrecord, physicalRecordsFrom, nil_append,
      Bool.false_eq_true, ↓reduceIte, cons_append]
    rw [physicalRecordsFrom_lf, hline]
  | case3 record rest ih =>
    rw [separatorFrom_cons_terminator (Or.inl rfl)]
    simp only [cons_append, physicalRecordsFrom_lf, ih]
  | case4 record hlf =>
    -- a carriage return at the end of the prior bytes: the record does not start with a line feed
    obtain ⟨byte, rest, rfl⟩ := exists_cons_of_ne_nil hne
    obtain ⟨hbyte, -⟩ := not_or.1 (hclean byte mem_cons_self)
    rw [separatorFrom_cons_terminator (Or.inr rfl)]
    simp only [separatorFrom, getLast?_nil, isEmpty_nil, ↓reduceIte, append_nil,
      cons_append, nil_append, physicalRecordsFrom.eq_def record (0x0d :: _)]
    simp only [hlf, hbyte, ↓reduceIte]
    rw [← cons_append, hline]
    rfl
  | case5 record rest hlf ih =>
    rw [separatorFrom_cons_terminator (Or.inr rfl), separatorFrom_cons_terminator (Or.inl rfl)]
    simp only [cons_append, physicalRecordsFrom.eq_def record (0x0d :: _), hlf, ↓reduceIte, ih]
  | case6 record next rest hnext hlf ih =>
    rw [separatorFrom_cons_terminator (Or.inr rfl)]
    simp only [cons_append, physicalRecordsFrom.eq_def record (0x0d :: _), hlf, hnext,
      ↓reduceIte] at ih ⊢
    rw [ih]
  | case7 record byte rest hlf hcr ih =>
    rw [separatorFrom_cons (not_or.2 ⟨hlf, hcr⟩)]
    simp only [cons_append, physicalRecordsFrom.eq_def record (byte :: _), hlf, hcr,
      ↓reduceIte]
    exact ih

theorem physicalRecords_append (prior : Bytes) {clean : Bytes} (hne : clean ≠ [])
    (hclean : ∀ byte ∈ clean, ¬ IsTerminator byte) :
    physicalRecords (prior ++ appendSeparator prior ++ clean ++ [0x0a]) =
      physicalRecords prior ++ [clean] := by
  have h := physicalRecordsFrom_append [] prior hne hclean
  rwa [separatorFrom_nil] at h

theorem not_isTerminator_of_mem (record raw : Bytes)
    (hrecord : ∀ byte ∈ record, ¬ IsTerminator byte) :
    ∀ framed ∈ physicalRecordsFrom record raw, ∀ byte ∈ framed, ¬ IsTerminator byte := by
  have hnil : ∀ byte ∈ ([] : Bytes), ¬ IsTerminator byte := by simp
  induction record, raw using physicalRecordsFrom.induct with
  | case1 record hempty =>
    rw [physicalRecordsFrom, if_pos hempty]
    simp
  | case2 record hempty =>
    rw [physicalRecordsFrom, if_neg hempty]
    simpa using hrecord
  | case3 record rest ih =>
    rw [physicalRecordsFrom_lf]
    exact forall_mem_cons.2 ⟨hrecord, ih hnil⟩
  | case4 record hlf =>
    simpa [physicalRecordsFrom] using hrecord
  | case5 record rest hlf ih =>
    simp only [physicalRecordsFrom.eq_def record (0x0d :: _), hlf, ↓reduceIte]
    exact forall_mem_cons.2 ⟨hrecord, ih hnil⟩
  | case6 record next rest hnext hlf ih =>
    simp only [physicalRecordsFrom.eq_def record (0x0d :: _), hlf, hnext, ↓reduceIte]
    exact forall_mem_cons.2 ⟨hrecord, ih hnil⟩
  | case7 record byte rest hlf hcr ih =>
    simp only [physicalRecordsFrom.eq_def record (byte :: _), hlf, hcr, ↓reduceIte]
    refine ih fun b hb => ?_
    rcases mem_append.1 hb with hb | hb
    · exact hrecord b hb
    · rw [mem_singleton.1 hb]
      exact not_or.2 ⟨hlf, hcr⟩

theorem oneRecord_ok {records : List Bytes} {clean : Bytes}
    (h : oneRecord none records = .ok clean) : records = [clean] ∧ recordIsBlank clean = false := by
  rcases records with _ | ⟨framed, rest⟩
  · exact absurd h fail_ne_ok
  · rw [oneRecord] at h
    split_ifs at h with hblank
    · exact absurd h fail_ne_ok
    · rcases rest with _ | ⟨second, rest⟩
      · obtain rfl := Except.ok.inj h
        exact ⟨rfl, by simpa using hblank⟩
      · rw [oneRecord, if_pos (by simp)] at h
        exact absurd h fail_ne_ok

variable {py : PyLib} {checks : DeclaredChecks}

/-- What a successful append has gone through. -/
structure Appended (py : PyLib) (body : Json) (record prior clean : Bytes)
    (checks : DeclaredChecks) (event : Fields) (prepared : PreparedAppend) : Prop where
  framed : oneRecord none (physicalRecords record) = .ok clean
  decoded : decodeRecord py clean (bodyText py body "source_path") 1 = .ok event
  applied : ∃ scratch, applyEvent checks.defaults event checks
    (bodyText py body "source_path") 1 = .ok (.ok scratch)
  raw : prepared.rawStream = prior ++ appendSeparator prior ++ clean ++ [0x0a]
  body : bodyFromRawStream prepared.rawStream (bodyText py body "source_oid")
    (bodyText py body "source_path") = .ok prepared.body

theorem prepareAppend_ok {body registry : Json} {record prior : Bytes} {prepared : PreparedAppend}
    (hprior : decodeRawStream body = .ok prior) (hregistry : validatedRegistry registry = .ok checks)
    (h : prepareAppend py body record registry = .ok prepared) :
    ∃ clean event, Appended py body record prior clean checks event prepared := by
  unfold prepareAppend at h
  simp only [bind, Except.bind, hprior, hregistry] at h
  split_ifs at h with hcandidate
  · exact absurd h nofun
  rcases hframed : oneRecord none (physicalRecords record) with e | clean
  · simp [hframed] at h
  simp only [hframed] at h
  split_ifs at h with hsize
  · exact absurd h nofun
  rcases hdecode : decodeRecord py clean (bodyText py body "source_path") 1 with d | event
  · simp [hdecode, fail] at h
  simp only [hdecode] at h
  rcases happly : applyEvent checks.defaults event checks (bodyText py body "source_path") 1
    with e | d | scratch
  · simp [happly] at h
  · simp [happly, fail] at h
  simp only [happly] at h
  split at h
  · exact absurd h nofun
  · rename_i updated hbody
    obtain rfl := Except.ok.inj h
    exact ⟨clean, event, hframed, hdecode, ⟨scratch, happly⟩, rfl, hbody⟩

theorem effect_of_applied (hnames : checks.lookup "" = none) {event scratch : Fields}
    {path : String} {line : ℕ}
    (h : applyEvent checks.defaults event checks path line = .ok (.ok scratch)) :
    ∃ effect : Effect, event.get "var" = .str effect.var ∧ ∀ state path line, Typed checks state →
      applyEvent state event checks path line = .ok (.ok (effect.run state)) := by
  rcases applyEvent_cases checks event with hunhashable | hrejected | ⟨effect, -, hvar, heffect⟩
  · rw [applyEvent_of_unhashable hnames hunhashable] at h
    exact absurd h nofun
  · obtain ⟨diagnostic, -, hd⟩ := hrejected path line
    rw [hd _ (defaults_typed checks)] at h
    exact absurd h nofun
  · exact ⟨effect, hvar, heffect⟩

theorem replayLine_of_effect {clean : Bytes} {event : Fields} {effect : Effect} {path : String}
    {line : ℕ} (hblank : recordIsBlank clean = false)
    (hdecode : decodeRecord py clean path line = .ok event)
    (hvar : event.get "var" = .str effect.var) {old : PatchworkCheckProjection}
    (h : applyEvent old.state event checks path line = .ok (.ok (effect.run old.state))) :
    ∃ new, replayLine py checks path old (clean, line) = .ok new ∧
      Extends py checks path event line old new := by
  refine ⟨{ old with
    state := effect.run old.state
    lastEvents := old.lastEvents.set effect.var (eventAnchor path line) }, ?_, ⟨h, rfl, ?_⟩⟩
  · simp only [replayLine, hblank, hdecode, h, hvar, PyLib.str_str, Bool.false_eq_true, ↓reduceIte]
  · rw [hvar, PyLib.str_str]

theorem physicalLines_append (prior : Bytes) {clean : Bytes} (hne : clean ≠ [])
    (hclean : ∀ byte ∈ clean, ¬ IsTerminator byte) :
    physicalLines (prior ++ appendSeparator prior ++ clean ++ [0x0a]) =
      physicalLines prior ++ [(clean, (physicalRecords prior).length + 1)] := by
  unfold physicalLines
  rw [physicalRecords_append prior hne hclean, zipIdx_append, Nat.add_comm 1]
  rfl

/-- A successful append means its one event, at the physical line after the prior ones, exactly when
no prior record is poisoned. -/
theorem prepareAppend_extends_iff {body registry initialState : Json} {record prior : Bytes}
    {start : Fields} {prepared : PreparedAppend} (hprior : decodeRawStream body = .ok prior)
    (hregistry : validatedRegistry registry = .ok checks)
    (hstart : validatedInitialState checks initialState = .ok start)
    (happend : prepareAppend py body record registry = .ok prepared) :
    (∃ clean event old new,
        oneRecord none (physicalRecords record) = .ok clean ∧
        decodeRecord py clean (bodyText py body "source_path") 1 = .ok event ∧
        decodeRawStream prepared.body = .ok prepared.rawStream ∧
        prior <+: prepared.rawStream ∧
        replay py body registry initialState = .ok old ∧
        replay py prepared.body registry initialState = .ok new ∧
        Extends py checks (bodyText py body "source_path") event
          ((physicalRecords prior).length + 1) old new) ↔
      ∀ framed ∈ physicalRecords prior, ¬ Poisoned py checks framed := by
  have hnames := lookup_empty_of_validatedRegistry hregistry
  rw [replay_eq_replayLines hprior hregistry hstart, ← forall_physicalLines]
  constructor
  · rintro ⟨-, -, old, -, -, -, -, -, hold, -⟩
    exact not_poisoned_of_replayLines_ok hnames hold
  · intro hpoison
    obtain ⟨clean, event, happended⟩ := prepareAppend_ok hprior hregistry happend
    obtain ⟨hframed, hblank⟩ := oneRecord_ok happended.framed
    obtain ⟨scratch, hscratch⟩ := happended.applied
    obtain ⟨effect, hvar, heffect⟩ := effect_of_applied hnames hscratch
    obtain ⟨hraw, hpath, -⟩ := bodyFromRawStream_ok py happended.body
    have hclean : ∀ byte ∈ clean, ¬ IsTerminator byte :=
      not_isTerminator_of_mem [] record (by simp) clean
        (by rw [show physicalRecordsFrom [] record = [clean] from hframed]; simp)
    have hne : clean ≠ [] := by
      rintro rfl
      exact absurd hblank nofun
    let s : (Fields × Fields) × List PhysicalLineDiagnostic := ((start, []), [])
    obtain ⟨old, hold, htyped⟩ : ∃ old, replayLines py checks (bodyText py body "source_path")
        ⟨start, [], []⟩ (physicalLines prior) = .ok old ∧ Typed checks old.state :=
      ⟨_, replayLines_eq_run _ hpoison s (validatedInitialState_typed hstart)⟩
    obtain ⟨new, hnew, hextends⟩ := replayLine_of_effect hblank
      (decodeRecord_ok_congr happended.decoded (bodyText py body "source_path")
        ((physicalRecords prior).length + 1)) hvar
      (heffect _ (bodyText py body "source_path") ((physicalRecords prior).length + 1) htyped)
    refine ⟨clean, event, old, new, happended.framed, happended.decoded, hraw, ?_, hold, ?_, hextends⟩
    · rw [happended.raw, append_assoc, append_assoc]
      exact prefix_append _ _
    · rw [replay_eq_replayLines hraw hregistry hstart, hpath, happended.raw,
        physicalLines_append prior hne hclean, replayLines, foldlM_append]
      rw [replayLines] at hold
      rw [hold]
      exact (bind_pure _).trans hnew

def decrement : Bytes := asciiBytes "\x7b\"var\":\"a\",\"op\":\"dec\",\"value\":2\x7d"

/-- The broken stream with the decrement at its end. -/
def brokenTailAppended : PreparedAppend where
  body := sampleBody (brokenTail ++ [0x0a] ++ decrement ++ [0x0a])
  rawStream := brokenTail ++ [0x0a] ++ decrement ++ [0x0a]
  priorSha256 := asciiLib.sha256 brokenTail

theorem prepareAppend_extends_brokenTail :
    ∃ clean event old new,
      oneRecord none (physicalRecords decrement) = .ok clean ∧
      decodeRecord asciiLib clean (bodyText asciiLib (sampleBody brokenTail) "source_path") 1
        = .ok event ∧
      decodeRawStream brokenTailAppended.body = .ok brokenTailAppended.rawStream ∧
      brokenTail <+: brokenTailAppended.rawStream ∧
      replay asciiLib (sampleBody brokenTail) counterRegistry .null = .ok old ∧
      replay asciiLib brokenTailAppended.body counterRegistry .null = .ok new ∧
      Extends asciiLib [("a", .counter)]
        (bodyText asciiLib (sampleBody brokenTail) "source_path") event
        ((physicalRecords brokenTail).length + 1) old new := by
  have hprior : decodeRawStream (sampleBody brokenTail) = .ok brokenTail := by decide +kernel
  have hregistry : validatedRegistry counterRegistry = .ok [("a", .counter)] := by decide +kernel
  have hstart : validatedInitialState [("a", .counter)] .null = .ok [("a", .int 0)] := rfl
  have happend : prepareAppend asciiLib (sampleBody brokenTail) decrement counterRegistry
      = .ok brokenTailAppended := by decide +kernel
  exact (prepareAppend_extends_iff hprior hregistry hstart happend).2 (by decide +kernel)

/-- The stream with the list operation, and the decrement at its end. -/
def listOperationAppended : PreparedAppend where
  body := sampleBody (listOperation ++ decrement ++ [0x0a])
  rawStream := listOperation ++ decrement ++ [0x0a]
  priorSha256 := asciiLib.sha256 listOperation

theorem listOperation_append_raises :
    prepareAppend asciiLib (sampleBody listOperation) decrement counterRegistry
        = .ok listOperationAppended ∧
      ¬ ∃ new, replay asciiLib listOperationAppended.body counterRegistry .null = .ok new := by
  have hraises : replay asciiLib listOperationAppended.body counterRegistry .null
      = .error .typeError := by decide +kernel
  refine ⟨by decide +kernel, ?_⟩
  rintro ⟨new, hok⟩
  rw [hraises] at hok
  exact absurd hok nofun

/-! ### Streams that appends make -/

/-- What an event does to every typed state. -/
def Means (checks : DeclaredChecks) (effect : Effect) (event : Fields) : Prop :=
  event.get "var" = .str effect.var ∧ ∀ state path line, Typed checks state →
    applyEvent state event checks path line = .ok (.ok (effect.run state))

/-- The bodies that appends make of one, with the events they append. -/
inductive Grown (py : PyLib) (registry body : Json) : Json → List Fields → Prop
  | start : Grown py registry body body []
  | append {later : Json} {events : List Fields} {record clean : Bytes} {event : Fields} {prepared : PreparedAppend}
      (h : Grown py registry body later events) (hframed : oneRecord none (physicalRecords record) = .ok clean)
      (hdecoded : decodeRecord py clean (bodyText py later "source_path") 1 = .ok event)
      (happend : prepareAppend py later record registry = .ok prepared) :
      Grown py registry body prepared.body (events ++ [event])

theorem append_step {body registry initialState : Json} {record prior clean : Bytes} {start event : Fields}
    {prepared : PreparedAppend} {old : PatchworkCheckProjection} (hprior : decodeRawStream body = .ok prior)
    (hregistry : validatedRegistry registry = .ok checks)
    (hstart : validatedInitialState checks initialState = .ok start)
    (hold : replay py body registry initialState = .ok old)
    (hframed : oneRecord none (physicalRecords record) = .ok clean)
    (hdecoded : decodeRecord py clean (bodyText py body "source_path") 1 = .ok event)
    (happend : prepareAppend py body record registry = .ok prepared) :
    decodeRawStream prepared.body = .ok prepared.rawStream ∧ prior <+: prepared.rawStream ∧ ∃ effect new,
      Means checks effect event ∧ replay py prepared.body registry initialState = .ok new ∧
        new.state = effect.run old.state ∧ new.diagnostics = old.diagnostics := by
  have hnames := lookup_empty_of_validatedRegistry hregistry
  obtain ⟨other, event', happended⟩ := prepareAppend_ok hprior hregistry happend
  obtain rfl := Except.ok.inj (hframed.symm.trans happended.framed)
  obtain rfl := Except.ok.inj (hdecoded.symm.trans happended.decoded)
  obtain ⟨scratch, hscratch⟩ := happended.applied
  obtain ⟨effect, hvar, heffect⟩ := effect_of_applied hnames hscratch
  obtain ⟨hraw, hpath, -⟩ := bodyFromRawStream_ok py happended.body
  obtain ⟨hrecord, hblank⟩ := oneRecord_ok hframed
  have hclean : ∀ byte ∈ clean, ¬ IsTerminator byte := not_isTerminator_of_mem [] record (by simp) clean (by
    rw [show physicalRecordsFrom [] record = [clean] from hrecord]
    exact mem_singleton_self _)
  have hne : clean ≠ [] := fun hempty => by simp [hempty, recordIsBlank] at hblank
  rw [replay_eq_replayLines hprior hregistry hstart] at hold
  have htyped : Typed checks old.state := by
    obtain ⟨hrun, htyped⟩ := replayLines_eq_run (bodyText py body "source_path")
      (not_poisoned_of_replayLines_ok hnames hold) ((start, []), []) (validatedInitialState_typed hstart)
    obtain rfl := Except.ok.inj (hold.symm.trans hrun)
    exact htyped
  obtain ⟨new, hnew, hextends⟩ := replayLine_of_effect hblank
    (decodeRecord_ok_congr hdecoded (bodyText py body "source_path") ((physicalRecords prior).length + 1)) hvar
    (heffect _ (bodyText py body "source_path") ((physicalRecords prior).length + 1) htyped)
  refine ⟨hraw, ?_, effect, new, ⟨hvar, heffect⟩, ?_, ?_, hextends.diagnostics⟩
  · rw [happended.raw, append_assoc, append_assoc]
    exact prefix_append _ _
  · rw [replay_eq_replayLines hraw hregistry hstart, hpath, happended.raw, physicalLines_append prior hne hclean,
      replayLines, foldlM_append, ← replayLines, hold]
    exact (bind_pure _).trans hnew
  · simpa [heffect _ _ _ htyped, eq_comm] using hextends.applied

/-- Whatever a stream is replayed to, appends leave its bytes in front and its diagnostics as they are, and their events
have their effects one after another. -/
theorem appends_replayed {body later registry initialState : Json} {prior : Bytes} {start : Fields} {events : List Fields}
    {old : PatchworkCheckProjection} (hregistry : validatedRegistry registry = .ok checks)
    (hstart : validatedInitialState checks initialState = .ok start) (hprior : decodeRawStream body = .ok prior)
    (hold : replay py body registry initialState = .ok old) (h : Grown py registry body later events) :
    ∃ raw effects new, decodeRawStream later = .ok raw ∧ prior <+: raw ∧ Forall₂ (Means checks) effects events ∧
      replay py later registry initialState = .ok new ∧ new.diagnostics = old.diagnostics ∧
        new.state = effects.foldl (fun state effect => effect.run state) old.state := by
  induction h with
  | start => exact ⟨prior, [], old, hprior, prefix_refl _, .nil, hold, rfl, rfl⟩
  | append _ hframed hdecoded happend ih =>
    obtain ⟨raw, effects, mid, hraw, hfront, heffects, hmid, hdiagnostics, hstate⟩ := ih
    obtain ⟨hraw', hfront', effect, new, heffect, hnew, hstate', hdiagnostics'⟩ :=
      append_step hraw hregistry hstart hmid hframed hdecoded happend
    refine ⟨_, effects ++ [effect], new, hraw', hfront.trans hfront', rel_append heffects (.cons heffect .nil), hnew,
      hdiagnostics'.trans hdiagnostics, ?_⟩
    rw [foldl_append, ← hstate]
    exact hstate'

def decrementEvent : Fields := [("var", .str "a"), ("op", .str "dec"), ("value", .int 2)]

/-- The decrement is appended to an empty stream. -/
theorem appends_replayed_decrement : ∃ raw effects new,
    decodeRawStream (sampleBody (decrement ++ [0x0a])) = .ok raw ∧ [] <+: raw ∧
      Forall₂ (Means [("a", .counter)]) effects ([] ++ [decrementEvent]) ∧
      replay asciiLib (sampleBody (decrement ++ [0x0a])) counterRegistry .null = .ok new ∧ new.diagnostics = [] ∧
        new.state = effects.foldl (fun state effect => effect.run state) [("a", .int 0)] := by
  have hold : replay asciiLib (sampleBody []) counterRegistry .null = .ok ⟨[("a", .int 0)], [], []⟩ := by decide +kernel
  have happend : prepareAppend asciiLib (sampleBody []) decrement counterRegistry =
      .ok ⟨sampleBody (decrement ++ [0x0a]), decrement ++ [0x0a], asciiLib.sha256 []⟩ := by decide +kernel
  exact appends_replayed (by decide +kernel) rfl (by decide +kernel) hold
    (.append .start (show _ = Except.ok decrement by decide +kernel) (by decide +kernel) happend)

end CheckStream

end AiOrg
