import AiOrg.Harvest.Rollout
import AiOrg.Python.JsonPlain

/-!
# Checks are attributed to their calls

The pass goes on in the order of the rows, so what it knows is about the rows up to one: a pending call has seen no
row with its id, and the record of an active cell holds the outputs of one check and of waits for its cell, which no
other call has opened since (`Good`). Every row keeps that, unless the pass misses that another call opens a cell.
-/

namespace AiOrg

open List

namespace Harvest

variable {rd : Reader} {past : List Row} {row : Row} {s : State}

theorem pass_concat (past : List Row) (row : Row) :
    pass rd (past ++ [row]) = step rd (pass rd past) past.length row := by
  rw [pass, zipIdx_append, foldl_append, Nat.zero_add]
  rfl

theorem getElem?_concat_of_lt {k : ℕ} (h : k < past.length) : (past ++ [row])[k]? = past[k]? :=
  getElem?_append_left h

theorem lt_of_getElem? {k : ℕ} {r : Row} (h : past[k]? = some r) : k < past.length :=
  (List.getElem?_eq_some_iff.1 h).1

theorem Paired.lt {call : Call} {k : ℕ} {output : String} (h : Paired past call k output) : k < past.length := by
  obtain ⟨id, -, hk, -⟩ := h
  exact lt_of_getElem? hk

theorem paired_concat {call : Call} {k : ℕ} {output : String} (hk : k < past.length) :
    Paired (past ++ [row]) call k output ↔ Paired past call k output := by
  unfold Paired
  constructor
  · rintro ⟨id, hcall, houtput, hlt, hbetween⟩
    refine ⟨id, getElem?_concat_of_lt (hlt.trans hk) ▸ hcall, getElem?_concat_of_lt hk ▸ houtput, hlt, ?_⟩
    intro m hm hmk r hr
    exact hbetween m hm hmk r ((getElem?_concat_of_lt (hmk.trans hk)).trans hr)
  · rintro ⟨id, hcall, houtput, hlt, hbetween⟩
    refine ⟨id, (getElem?_concat_of_lt (hlt.trans hk)).trans hcall, (getElem?_concat_of_lt hk).trans houtput, hlt, ?_⟩
    intro m hm hmk r hr
    exact hbetween m hm hmk r ((getElem?_concat_of_lt (hmk.trans hk)).symm.trans hr)

theorem Paired.concat {call : Call} {k : ℕ} {output : String} (h : Paired past call k output) (row : Row) :
    Paired (past ++ [row]) call k output := (paired_concat h.lt).2 h

theorem waitOn_concat {cell output : String} {k : ℕ} (hk : k < past.length) :
    WaitOn rd (past ++ [row]) cell k output ↔ WaitOn rd past cell k output :=
  exists_congr fun _ => and_congr_left' (paired_concat hk)

theorem openedByOther_concat {cell : String} {n k : ℕ} (hk : k < past.length) :
    OpenedByOther rd (past ++ [row]) n cell k ↔ OpenedByOther rd past n cell k := by
  unfold OpenedByOther
  simp only [getElem?_concat_of_lt hk, waitOn_concat hk]
  refine exists_congr fun family => exists_congr fun id => exists_congr fun output => and_congr_right fun _ =>
    and_congr_right fun _ => and_congr_left' ?_
  refine exists_congr fun i => exists_congr fun name => exists_congr fun input => and_congr_right fun hi => ?_
  rw [getElem?_concat_of_lt (hi.trans hk)]

theorem WaitsFor.lt {cell : String} {n j : ℕ} {waits : List (ℕ × String)} (h : WaitsFor rd past n cell j waits) :
    ∀ w ∈ waits, w.1 < past.length := by
  intro w hw
  obtain ⟨call, hpaired, -⟩ := (h w hw).2.1
  exact hpaired.lt

theorem WaitsFor.concat {cell : String} {n j : ℕ} {waits : List (ℕ × String)} (h : WaitsFor rd past n cell j waits)
    (row : Row) : WaitsFor rd (past ++ [row]) n cell j waits := by
  intro w hw
  have hlt := h.lt w hw
  obtain ⟨hj, hwait, hfree⟩ := h w hw
  exact ⟨hj, (waitOn_concat hlt).2 hwait, fun k hk hkw => mt (openedByOther_concat (hkw.trans hlt)).1 (hfree k hk hkw)⟩

theorem Stems.concat {check : RecordedCheck} (h : Stems rd past check) (row : Row) :
    Stems rd (past ++ [row]) check := by
  obtain ⟨call, output, j, waits, hsequence, hcommand, hpaired, hwaits, hlines⟩ := h
  exact ⟨call, output, j, waits, hsequence, hcommand, hpaired.concat row, hwaits.concat row, hlines⟩

/-- A record follows the cell that the output of its call opened, and no other call has opened since. -/
def Follows (rd : Reader) (past : List Row) (cell : String) (record : Record) : Prop :=
  cell ≠ "" ∧ ∃ call output j waits, call.sequence = record.sequence ∧ checkCommand rd call = some record.command ∧
    Paired past call j output ∧ _running_cell_id output = cell ∧ WaitsFor rd past record.sequence cell j waits ∧
    record.outputs = output :: waits.map Prod.snd ∧
    ∀ k, j < k → ¬ OpenedByOther rd past record.sequence cell k

/-- The record of a call has been made. -/
def Used (s : State) (n : ℕ) : Prop :=
  n ∈ s.checks.map RecordedCheck.sequence ∨ ∃ cell record, s.active_cells cell = some record ∧ record.sequence = n

structure Good (rd : Reader) (past : List Row) (s : State) : Prop where
  pending : ∀ id call, s.pending_calls id = some call →
    past[call.sequence]? = some (.call call.family id call.name call.input) ∧
      ∀ k, call.sequence < k → ∀ row, past[k]? = some row → row.callId ≠ some id
  ambiguous : ∀ id ∈ s.ambiguous_call_ids, s.pending_calls id = none
  active : ∀ cell record, s.active_cells cell = some record → Follows rd past cell record
  checks : ∀ check ∈ s.checks, Stems rd past check
  once : (s.checks.map RecordedCheck.sequence).Nodup
  apart : ∀ cell record, s.active_cells cell = some record → record.sequence ∉ s.checks.map RecordedCheck.sequence
  single : ∀ cell cell' record record', s.active_cells cell = some record → s.active_cells cell' = some record' →
    record.sequence = record'.sequence → cell = cell'

theorem good_init : Good rd [] .init where
  pending := nofun
  ambiguous := by simp [State.init]
  active := nofun
  checks := by simp [State.init]
  once := by simp [State.init]
  apart := nofun
  single := nofun

theorem Good.paired_of_used (h : Good rd past s) {n : ℕ} (hused : Used s n) :
    ∃ call output j, call.sequence = n ∧ Paired past call j output := by
  rcases hused with hmem | ⟨cell, record, hactive, rfl⟩
  · obtain ⟨check, hcheck, rfl⟩ := mem_map.1 hmem
    obtain ⟨call, output, j, waits, hsequence, -, hpaired, -⟩ := h.checks check hcheck
    exact ⟨call, output, j, hsequence, hpaired⟩
  · obtain ⟨-, call, output, j, waits, hsequence, -, hpaired, -⟩ := h.active cell record hactive
    exact ⟨call, output, j, hsequence, hpaired⟩

theorem Good.extend (h : Good rd past s) (hpending : ∀ id, row.callId = some id → s.pending_calls id = none)
    (hcells : ∀ cell record, s.active_cells cell = some record →
      ¬ OpenedByOther rd (past ++ [row]) record.sequence cell past.length) : Good rd (past ++ [row]) s where
  pending := by
    intro id call hcall
    obtain ⟨hrow, hlater⟩ := h.pending id call hcall
    refine ⟨(getElem?_concat_of_lt (lt_of_getElem? hrow)).trans hrow, fun k hk r hr hid => ?_⟩
    rcases Nat.lt_or_ge k past.length with hlt | hge
    · exact hlater k hk r ((getElem?_concat_of_lt hlt).symm.trans hr) hid
    · have heq : k = past.length := by
        have hlt := lt_of_getElem? hr
        rw [length_append, length_singleton] at hlt
        omega
      rw [heq, getElem?_concat_length] at hr
      obtain rfl := Option.some.inj hr
      rw [hpending id hid] at hcall
      exact nomatch hcall
  ambiguous := h.ambiguous
  active := by
    intro cell record hactive
    obtain ⟨hcell, call, output, j, waits, hsequence, hcommand, hpaired, hopens, hwaits, houtputs, hfree⟩ :=
      h.active cell record hactive
    refine ⟨hcell, call, output, j, waits, hsequence, hcommand, hpaired.concat row, hopens, hwaits.concat row,
      houtputs, ?_⟩
    intro k hk hother
    rcases Nat.lt_trichotomy k past.length with hlt | rfl | hgt
    · exact hfree k hk ((openedByOther_concat hlt).1 hother)
    · exact hcells cell record hactive hother
    · obtain ⟨family, id, text, hrow, -⟩ := hother
      have hlt := lt_of_getElem? hrow
      rw [length_append, length_singleton] at hlt
      omega
  checks := fun check hcheck => (h.checks check hcheck).concat row
  once := h.once
  apart := h.apart
  single := h.single

theorem Good.forget (h : Good rd past s) (id : String) :
    Good rd past { s with pending_calls := Function.update s.pending_calls id none } where
  pending := by
    intro other call hcall
    dsimp only at hcall
    by_cases hid : other = id
    · rw [hid, Function.update_self] at hcall
      exact nomatch hcall
    · rw [Function.update_of_ne hid] at hcall
      exact h.pending other call hcall
  ambiguous := by
    intro other hother
    dsimp only
    by_cases hid : other = id
    · rw [hid, Function.update_self]
    · rw [Function.update_of_ne hid]
      exact h.ambiguous other hother
  active := h.active
  checks := h.checks
  once := h.once
  apart := h.apart
  single := h.single

theorem active_of_update {cell other : String} {record : Record}
    (h : Function.update s.active_cells cell none other = some record) :
    other ≠ cell ∧ s.active_cells other = some record := by
  by_cases hother : other = cell
  · rw [hother, Function.update_self] at h
    exact nomatch h
  · rw [Function.update_of_ne hother] at h
    exact ⟨hother, h⟩

theorem Good.drop (h : Good rd past s) (cell : String) (cells : Finset String) :
    Good rd past { s with active_cells := Function.update s.active_cells cell none, ambiguous_cells := cells } where
  pending := h.pending
  ambiguous := h.ambiguous
  active := fun other record hactive => h.active other record (active_of_update hactive).2
  checks := h.checks
  once := h.once
  apart := fun other record hactive => h.apart other record (active_of_update hactive).2
  single := fun a b record record' ha hb heq =>
    h.single a b record record' (active_of_update ha).2 (active_of_update hb).2 heq

theorem Good.follow (h : Good rd past s) {cell : String} {record : Record} (hfollows : Follows rd past cell record)
    (hnew : ¬ Used s record.sequence) :
    Good rd past { s with active_cells := Function.update s.active_cells cell (some record) } := by
  have hcases : ∀ {other : String} {r : Record},
      Function.update s.active_cells cell (some record) other = some r →
        other = cell ∧ r = record ∨ other ≠ cell ∧ s.active_cells other = some r := by
    intro other r hr
    by_cases hother : other = cell
    · rw [hother, Function.update_self] at hr
      exact .inl ⟨hother, (Option.some.inj hr).symm⟩
    · rw [Function.update_of_ne hother] at hr
      exact .inr ⟨hother, hr⟩
  refine ⟨h.pending, h.ambiguous, ?_, h.checks, h.once, ?_, ?_⟩
  · intro other r hr
    rcases hcases hr with ⟨rfl, rfl⟩ | ⟨-, hr⟩
    · exact hfollows
    · exact h.active other r hr
  · intro other r hr
    rcases hcases hr with ⟨rfl, rfl⟩ | ⟨-, hr⟩
    · exact fun hmem => hnew (.inl hmem)
    · exact h.apart other r hr
  · intro a b r r' ha hb heq
    rcases hcases ha with ⟨rfl, rfl⟩ | ⟨-, ha'⟩ <;> rcases hcases hb with ⟨rfl, rfl⟩ | ⟨-, hb'⟩
    · rfl
    · exact absurd (.inr ⟨b, r', hb', heq.symm⟩) hnew
    · exact absurd (.inr ⟨a, r, ha', heq⟩) hnew
    · exact h.single a b r r' ha' hb' heq

theorem Good.finish (h : Good rd past s) {record : Record} {call : Call} {output : String} {j : ℕ}
    {waits : List (ℕ × String)} (hsequence : call.sequence = record.sequence)
    (hcommand : checkCommand rd call = some record.command) (hpaired : Paired past call j output)
    (hwaits : WaitsFor rd past record.sequence (_running_cell_id output) j waits)
    (houtputs : record.outputs = output :: waits.map Prod.snd) (hnew : ¬ Used s record.sequence) :
    Good rd past (_finish_check rd record s) := by
  unfold _finish_check
  dsimp only
  split_ifs with hempty
  · exact h
  · refine ⟨h.pending, h.ambiguous, h.active, ?_, ?_, ?_, h.single⟩
    · intro check hcheck
      rcases mem_append.1 hcheck with hcheck | hcheck
      · exact h.checks check hcheck
      · obtain rfl := mem_singleton.1 hcheck
        exact ⟨call, output, j, waits, hsequence, hcommand, hpaired, hwaits, by rw [houtputs]⟩
    · rw [map_append, map_singleton, nodup_append]
      refine ⟨h.once, nodup_singleton _, fun n hn m hm => ?_⟩
      rintro rfl
      have heq : n = record.sequence := mem_singleton.1 hm
      exact hnew (.inl (heq ▸ hn))
    · intro cell r hr hmem
      rw [map_append, map_singleton, mem_append, mem_singleton] at hmem
      rcases hmem with hmem | hmem
      · exact h.apart cell r hr hmem
      · exact hnew (.inr ⟨cell, r, hr, hmem⟩)

theorem Good.other (h : Good rd past s) (narration : String) (sequence : ℕ) :
    Good rd (past ++ [.other narration]) (step rd s sequence (.other narration)) := by
  have hextended : Good rd (past ++ [.other narration]) s := by
    refine h.extend nofun ?_
    rintro cell record - ⟨family, id, output, hrow, -⟩
    rw [getElem?_concat_length] at hrow
    exact nomatch Option.some.inj hrow
  rw [step]
  split_ifs
  · exact hextended
  · exact ⟨hextended.pending, hextended.ambiguous, hextended.active, hextended.checks, hextended.once,
      hextended.apart, hextended.single⟩

theorem Good.call (h : Good rd past s) (family : Family) {id : String} (name : String) (input : Json) (hid : id ≠ "") :
    Good rd (past ++ [.call family id name input]) (step rd s past.length (.call family id name input)) := by
  have hextended : Good rd (past ++ [.call family id name input])
      { s with pending_calls := Function.update s.pending_calls id none } := by
    refine (h.forget id).extend ?_ ?_
    · intro other hother
      obtain rfl := Option.some.inj hother
      exact Function.update_self ..
    · rintro cell record - ⟨f, other, output, hrow, -⟩
      rw [getElem?_concat_length] at hrow
      exact nomatch Option.some.inj hrow
  rw [step, State.addCall, if_neg hid]
  split_ifs with hused
  · refine ⟨hextended.pending, ?_, hextended.active, hextended.checks, hextended.once, hextended.apart,
      hextended.single⟩
    intro other hother
    rcases Finset.mem_insert.1 hother with rfl | hother
    · exact Function.update_self ..
    · exact hextended.ambiguous other hother
  · obtain ⟨-, hclear⟩ := not_or.1 hused
    refine ⟨?_, ?_, hextended.active, hextended.checks, hextended.once, hextended.apart, hextended.single⟩
    · intro other c hc
      dsimp only at hc
      by_cases hother : other = id
      · subst hother
        rw [Function.update_self] at hc
        obtain rfl := Option.some.inj hc
        refine ⟨getElem?_concat_length, fun k hk r hr => ?_⟩
        have hlt := lt_of_getElem? hr
        rw [length_append, length_singleton] at hlt
        have hk : past.length < k := hk
        omega
      · rw [Function.update_of_ne hother] at hc
        refine hextended.pending other c ?_
        dsimp only
        rw [Function.update_of_ne hother]
        exact hc
    · intro other hother
      have hne : other ≠ id := fun heq => hclear (heq ▸ hother)
      dsimp only
      rw [Function.update_of_ne hne]
      exact h.ambiguous other hother

/-! ### An output -/

variable {family : Family} {id text : String} {call : Call}

theorem Good.takeCall_eq (h : Good rd past s) (hid : id ≠ "") : s.takeCall family id =
    (s.pending_calls id, { s with pending_calls := Function.update s.pending_calls id none }) := by
  rw [State.takeCall, if_neg hid]
  split_ifs with hambiguous
  · have hnone := h.ambiguous id hambiguous
    rw [hnone, ← hnone, Function.update_eq_self]
  · rfl

theorem Good.paired (h : Good rd past s) (hpending : s.pending_calls id = some call) (hfamily : call.family = family)
    (text : String) : Paired (past ++ [.output family id text]) call past.length text := by
  obtain ⟨hrow, hlater⟩ := h.pending id call hpending
  have hlt := lt_of_getElem? hrow
  refine ⟨id, (getElem?_concat_of_lt hlt).trans hrow, hfamily ▸ getElem?_concat_length, hlt, ?_⟩
  intro m hm hmk r hr
  exact hlater m hm r ((getElem?_concat_of_lt hmk).symm.trans hr)

theorem Good.fresh (h : Good rd past s) (hpending : s.pending_calls id = some call) : ¬ Used s call.sequence := by
  intro hused
  obtain ⟨other, output, j, hsequence, other_id, hother, houtput, hlt, -⟩ := h.paired_of_used hused
  obtain ⟨hrow, hlater⟩ := h.pending id call hpending
  rw [hsequence] at hother hlt
  injection Option.eq_some_unique hrow hother with _ hids
  exact hlater j hlt _ houtput (congrArg some hids.symm)

theorem OpenedByOther.announces {n : ℕ} {cell : String}
    (h : OpenedByOther rd (past ++ [.output family id text]) n cell past.length) :
    _running_cell_id text = cell ∧ (∃ i name input, i ≠ n ∧ past[i]? = some (.call family id name input)) ∧
      ¬ WaitOn rd (past ++ [.output family id text]) cell past.length text := by
  obtain ⟨f, other, output, hrow, hcell, ⟨i, name, input, hi, hne, hcall⟩, hwait⟩ := h
  rw [getElem?_concat_length] at hrow
  obtain ⟨rfl, rfl, rfl⟩ := Row.output.inj (Option.some.inj hrow)
  exact ⟨hcell, ⟨i, name, input, hne, (getElem?_concat_of_lt hi).symm.trans hcall⟩, hwait⟩

theorem checkCommand_of_isWait (h : isWait call = true) : checkCommand rd call = none := by
  unfold isWait at h
  have hname : baseName call.name = "wait" ∨ baseName call.name = "write_stdin" := by simpa using h
  unfold checkCommand _command_from_call
  rcases hname with hname | hname <;> simp [hname]

theorem Follows.wait {cell : String} {record : Record} (h : Follows rd past cell record)
    (hwait : WaitOn rd (past ++ [row]) cell past.length text) :
    Follows rd (past ++ [row]) cell { record with outputs := record.outputs ++ [text] } := by
  obtain ⟨hcell, call, output, j, waits, hsequence, hcommand, hpaired, hopens, hwaits, houtputs, hfree⟩ := h
  have hfree' : ∀ k, j < k → k < past.length → ¬ OpenedByOther rd (past ++ [row]) record.sequence cell k :=
    fun k hk hlt hother => hfree k hk ((openedByOther_concat hlt).1 hother)
  refine ⟨hcell, call, output, j, waits ++ [(past.length, text)], hsequence, hcommand, hpaired.concat row, hopens,
    ?_, ?_, ?_⟩
  · intro w hw
    rcases mem_append.1 hw with hw | hw
    · exact hwaits.concat row w hw
    · obtain rfl := mem_singleton.1 hw
      exact ⟨hpaired.lt, hwait, hfree'⟩
  · dsimp only
    rw [houtputs, map_append]
    rfl
  · intro k hk hother
    rcases Nat.lt_trichotomy k past.length with hlt | rfl | hgt
    · exact hfree' k hk hlt hother
    · obtain ⟨f, other, out, hrow, -, -, hnowait⟩ := hother
      obtain ⟨waiting, hpaired', hrest⟩ := id hwait
      obtain ⟨_, -, hrow', -⟩ := id hpaired'
      obtain ⟨-, -, rfl⟩ := Row.output.inj (Option.eq_some_unique hrow hrow')
      exact hnowait hwait
    · obtain ⟨f, other, out, hrow, -⟩ := hother
      have hlt := lt_of_getElem? hrow
      rw [length_append, length_singleton] at hlt
      omega

theorem Good.consume_wait (h : Good rd (past ++ [row]) s) (hwait : isWait call = true)
    (hpaired : Paired (past ++ [row]) call past.length text)
    (hactive : ∀ cell record, s.active_cells cell = some record → Follows rd past cell record) :
    Good rd (past ++ [row]) (_consume_tool_pair rd call text s) := by
  rw [_consume_tool_pair, if_pos hwait]
  dsimp only
  split
  · exact h
  · rename_i active hsome
    have hcell : _cell_id_from_input rd call.input ≠ "" := fun hempty => by
      rw [if_pos hempty] at hsome
      exact nomatch hsome
    rw [if_neg hcell] at hsome
    generalize hname : _cell_id_from_input rd call.input = cell at *
    have hfollows := (hactive cell active hsome).wait ⟨call, hpaired, hwait, hname⟩
    -- The record is not followed anywhere else, and no check has come of it.
    have hnew : ¬ Used { s with active_cells := Function.update s.active_cells cell none } active.sequence := by
      rintro (hmem | ⟨other, record, hother, heq⟩)
      · exact h.apart cell active hsome hmem
      · obtain ⟨hne, hother⟩ := active_of_update hother
        exact hne (h.single other cell record active hother hsome heq)
    split_ifs
    · have hgood := (h.drop cell s.ambiguous_cells).follow hfollows hnew
      dsimp only at hgood
      rw [Function.update_idem] at hgood
      exact hgood
    · exact h.drop cell _
    · obtain ⟨-, first, output, j, waits, hsequence, hcommand, hfirst, hopens, hwaits, houtputs, -⟩ := hfollows
      exact (h.drop cell s.ambiguous_cells).finish hsequence hcommand hfirst (hopens.symm ▸ hwaits) houtputs hnew

theorem Good.consume_check (h : Good rd past s) {command : String} (hwait : isWait call = false)
    (hcommand : checkCommand rd call = some command) (hnew : ¬ Used s call.sequence)
    (hpaired : Paired (past ++ [.output family id text]) call past.length text)
    (hpending : s.pending_calls id = none) :
    Good rd (past ++ [.output family id text]) (_consume_tool_pair rd call text s) := by
  have hrow : ∀ other, (Row.output family id text).callId = some other → s.pending_calls other = none := by
    intro other hother
    obtain rfl := Option.some.inj hother
    exact hpending
  have hnone : WaitsFor rd (past ++ [.output family id text]) call.sequence (_running_cell_id text) past.length [] :=
    nofun
  rw [_consume_tool_pair, hwait, if_neg Bool.false_ne_true, hcommand]
  dsimp only
  split_ifs with hempty hcollides
  · refine Good.finish (h.extend hrow ?_) rfl hcommand hpaired hnone rfl hnew
    intro cell record hactive hother
    exact (h.active cell record hactive).1 (hother.announces.1.symm.trans hempty)
  · refine (h.drop _ _).extend hrow ?_
    intro cell record hactive hother
    exact (active_of_update hactive).1 hother.announces.1.symm
  · refine Good.follow (h.extend hrow ?_) ?_ hnew
    · intro cell record hactive hother
      obtain ⟨hclear, -⟩ := not_or.1 hcollides
      rw [hother.announces.1, hactive] at hclear
      exact hclear rfl
    · refine ⟨hempty, call, text, past.length, [], rfl, hcommand, hpaired, rfl, hnone, rfl, ?_⟩
      rintro k hk ⟨f, other, out, hlast, -⟩
      have hlt := lt_of_getElem? hlast
      rw [length_append, length_singleton] at hlt
      omega

theorem Good.output (h : Good rd past s) (hid : id ≠ "")
    (hnoticed : ∀ record, s.active_cells (_running_cell_id text) = some record →
      (∃ i name input, i ≠ record.sequence ∧ past[i]? = some (.call family id name input)) →
        Noticed rd s family id text) :
    Good rd (past ++ [.output family id text]) (step rd s past.length (.output family id text)) := by
  have htake := @Good.takeCall_eq rd past s family id h hid
  have hforget := h.forget id
  have hrow : ∀ other, (Row.output family id text).callId = some other →
      Function.update s.pending_calls id none other = none := by
    intro other hother
    obtain rfl := Option.some.inj hother
    exact Function.update_self ..
  -- Nothing opens an active cell here but a check.
  have hcells : ((s.pending_calls id).bind fun call =>
        if call.family = family then checkCommand rd call else none) = none →
      ∀ cell record, s.active_cells cell = some record →
        ¬ OpenedByOther rd (past ++ [.output family id text]) record.sequence cell past.length := by
    intro hnocheck cell record hactive hother
    obtain ⟨rfl, hcall, hnowait⟩ := hother.announces
    obtain ⟨call, hcall, hfamily, hkind⟩ := hnoticed record hactive hcall
    rw [htake] at hcall
    dsimp only at hcall
    rw [hcall, Option.bind_some, if_pos hfamily] at hnocheck
    rcases hkind with hcheck | ⟨hwait, hname⟩
    · rw [hnocheck] at hcheck
      exact nomatch hcheck
    · exact hnowait ⟨call, h.paired hcall hfamily text, hwait, hname⟩
  rw [step, htake]
  cases hpending : s.pending_calls id with
  | none => exact hforget.extend hrow (hcells (by rw [hpending]; rfl))
  | some call =>
    dsimp only
    split_ifs with hfamily
    · have hpaired := h.paired hpending hfamily text
      cases hwait : isWait call with
      | true =>
        have hextended := hforget.extend hrow
          (hcells (by rw [hpending, Option.bind_some, if_pos hfamily, checkCommand_of_isWait hwait]))
        exact hextended.consume_wait hwait hpaired h.active
      | false =>
        cases hcheck : checkCommand rd call with
        | none =>
          have hextended := hforget.extend hrow (hcells (by rw [hpending, Option.bind_some, if_pos hfamily, hcheck]))
          rw [_consume_tool_pair, hwait, if_neg Bool.false_ne_true, hcheck]
          exact hextended
        | some command =>
          exact hforget.consume_check hwait hcheck (h.fresh hpending) hpaired (Function.update_self ..)
    · exact hforget.extend hrow (hcells (by rw [hpending, Option.bind_some, if_neg hfamily]))

theorem good_pass {rows : List Row} (hids : CarryIds rows)
    (hmisses : ∀ past row later, rows = past ++ row :: later → ¬ Misses rd past row) : Good rd rows (pass rd rows) := by
  induction rows using reverseRecOn with
  | nil => exact good_init
  | append_singleton past row ih =>
    have hgood : Good rd past (pass rd past) := by
      refine ih (fun r hr => hids r (mem_append_left _ hr)) fun before r later heq => ?_
      refine hmisses before r (later ++ [row]) ?_
      rw [heq, append_assoc, cons_append]
    have hrow := hmisses past row [] rfl
    have hcarries := hids row (mem_append_right _ (mem_singleton_self row))
    rw [pass_concat]
    cases row with
    | other narration => exact hgood.other narration past.length
    | call family id name input => exact hgood.call family name input fun heq => hcarries (congrArg some heq)
    | output family id text =>
      refine hgood.output (fun heq => hcarries (congrArg some heq)) fun record hactive hcall => ?_
      by_contra hnoticed
      exact hrow ⟨record, hactive, hcall, hnoticed⟩

theorem Good.attributed {rows : List Row} {s : State} (h : Good rd rows s) :
    Attributed rd rows (s.checks.mergeSort fun a b => a.sequence ≤ b.sequence) := by
  have hperm := mergeSort_perm s.checks fun a b => decide (a.sequence ≤ b.sequence)
  exact ⟨fun check hcheck => h.checks check (hperm.mem_iff.1 hcheck),
    (hperm.map RecordedCheck.sequence).nodup_iff.2 h.once⟩

/-- Where the pass misses no opening of a cell, every check stems from one call. -/
theorem checks_attributed {lines : List String} {rows : List Row} {checks : List RecordedCheck}
    {narration : List String} (hrows : rowsOf rd lines = some rows) (hids : CarryIds rows)
    (hmisses : ∀ past row later, rows = past ++ row :: later → ¬ Misses rd past row)
    (h : extractLines rd lines = some (some (checks, narration))) : Attributed rd rows checks := by
  rw [extractLines, hrows, Option.map_some, _extract_rollout] at h
  split_ifs at h
  · exact nomatch Option.some.inj h
  obtain ⟨rfl, -⟩ := Prod.mk.inj (Option.some.inj (Option.some.inj h))
  exact (good_pass hids hmisses).attributed

def plainReader : Reader where
  py := asciiLib
  loads := fun text => (loadsPlain asciiLib text).toOption
  commandLiteral := fun _ _ => none
  cellLiteral := fun _ => ""
  isCheckCommand := fun command => command = "pytest"
  outcomeLines := fun text => if text = "1 passed" then [text] else []

def callLine (id name key value : String) : String :=
  "\x7b\"type\":\"response_item\",\"payload\":\x7b\"type\":\"function_call\",\"call_id\":\"" ++ id ++
    "\",\"name\":\"" ++ name ++ "\",\"arguments\":\x7b\"" ++ key ++ "\":\"" ++ value ++ "\"\x7d\x7d\x7d"

def outputLine (id text : String) : String :=
  "\x7b\"type\":\"response_item\",\"payload\":\x7b\"type\":\"function_call_output\",\"call_id\":\"" ++ id ++
    "\",\"output\":\"" ++ text ++ "\"\x7d\x7d"

def callRow (id name key value : String) : Row := .call .function id name (.obj [(key, .str value)])

def checked : List (String × Row) :=
  [(callLine "a" "exec_command" "cmd" "pytest", callRow "a" "exec_command" "cmd" "pytest"),
    (outputLine "a" "Script running with cell ID 5", .output .function "a" "Script running with cell ID 5")]

def opened : List (String × Row) :=
  [(callLine "b" "exec_command" "cmd" "sleep 9", callRow "b" "exec_command" "cmd" "sleep 9"),
    (outputLine "b" "Script running with cell ID 5", .output .function "b" "Script running with cell ID 5")]

def ended : List (String × Row) :=
  [(callLine "c" "wait" "cell_id" "5", callRow "c" "wait" "cell_id" "5"),
    (outputLine "c" "1 passed", .output .function "c" "1 passed")]

/-- A check goes on in a cell, and a wait brings its end. -/
def waitedRows : List Row := (checked ++ ended).map Prod.snd

def reopenedRows : List Row := (checked ++ opened ++ ended).map Prod.snd

theorem sessions_read : (∀ line ∈ checked ++ opened ++ ended, rowsOf plainReader [line.1] = some [line.2]) ∧
    _extract_rollout plainReader waitedRows = some ([⟨0, "pytest", ["1 passed"]⟩], []) ∧
    _extract_rollout plainReader reopenedRows = some ([⟨0, "pytest", ["1 passed"]⟩], []) ∧
    _running_cell_id "Script running with cell ID 5" = "5" ∧ baseName "exec_command" = "exec_command" := by
  decide +kernel

theorem rowsOf_map {lines : List (String × Row)} (h : ∀ line ∈ lines, rowsOf rd [line.1] = some [line.2]) :
    rowsOf rd (lines.map Prod.fst) = some (lines.map Prod.snd) := by
  induction lines with
  | nil => rfl
  | cons line lines ih =>
    have hline := h line mem_cons_self
    have hlines := ih fun other hother => h other (mem_cons_of_mem line hother)
    unfold rowsOf at hline hlines ⊢
    rw [map_cons, ← singleton_append, _jsonl_objects, filterMap_append, mapM_append]
    rw [_jsonl_objects] at hline hlines
    rw [hline, hlines]
    rfl

/-- The law at that session. -/
theorem checks_attributed_waited :
    Attributed plainReader waitedRows [⟨0, "pytest", ["1 passed"]⟩] := by
  have hrows : rowsOf plainReader ((checked ++ ended).map Prod.fst) = some waitedRows := by
    refine rowsOf_map fun line hline => sessions_read.1 line ?_
    rw [append_assoc]
    exact (sublist_append_right opened ended).append_left checked |>.subset hline
  have hresult := sessions_read.2.1
  refine checks_attributed hrows ?_ ?_ (by rw [extractLines, hrows, Option.map_some, hresult])
  · simp [CarryIds, waitedRows, checked, ended, callRow, Row.callId]
  · rintro past row later hrows hmisses
    have hpast : past = waitedRows.take past.length := by rw [hrows, take_left]
    have hrow : waitedRows[past.length]? = some row := by
      rw [hrows, getElem?_append_right le_rfl, Nat.sub_self, getElem?_cons_zero]
    have hlt : past.length < 4 := lt_of_getElem? hrow
    generalize past.length = n at hpast hrow hlt
    subst hpast
    -- The cells that the outputs announce are not followed yet.
    interval_cases n <;> obtain rfl := Option.some.inj hrow
    · exact hmisses
    · obtain ⟨record, hactive, -⟩ := hmisses
      exact absurd (Option.isSome_iff_exists.2 ⟨record, hactive⟩) (by decide +kernel)
    · exact hmisses
    · obtain ⟨record, hactive, -⟩ := hmisses
      exact absurd (Option.isSome_iff_exists.2 ⟨record, hactive⟩) (by decide +kernel)

theorem reopenedRows_output {k : ℕ} {family : Family} {id text : String}
    (h : reopenedRows[k]? = some (.output family id text)) :
    k = 1 ∧ id = "a" ∧ text = "Script running with cell ID 5" ∨
      k = 3 ∧ id = "b" ∧ text = "Script running with cell ID 5" ∨ k = 5 ∧ id = "c" ∧ text = "1 passed" := by
  have hk : k < 6 := lt_of_getElem? h
  interval_cases k <;> simp only [reopenedRows, checked, opened, ended, callRow, cons_append,
    nil_append, map_cons, map_nil, getElem?_cons_succ, getElem?_cons_zero,
    Option.some.injEq, Row.output.injEq, reduceCtorEq] at h <;> simp [← h.2.1, ← h.2.2]

theorem reopened_opened : OpenedByOther plainReader reopenedRows 0 "5" 3 := by
  refine ⟨.function, "b", "Script running with cell ID 5", rfl, sessions_read.2.2.2.1,
    ⟨2, "exec_command", .obj [("cmd", .str "sleep 9")], by decide, by decide, rfl⟩, ?_⟩
  rintro ⟨call, ⟨id, hcall, houtput, hlt, -⟩, hwait, -⟩
  obtain ⟨-, rfl, -⟩ := Row.output.inj (Option.some.inj houtput)
  have hname : call.name = "exec_command" := by
    generalize call.sequence = n at hcall hlt
    interval_cases n <;> simp only [reopenedRows, checked, opened, ended, callRow, cons_append,
    nil_append, map_cons, map_nil, getElem?_cons_succ, getElem?_cons_zero,
      Option.some.injEq, Row.call.injEq, reduceCtorEq] at hcall
    · exact hcall.2.2.1.symm
    · exact hcall.2.2.1.symm
  rw [isWait, hname, sessions_read.2.2.2.2] at hwait
  exact absurd hwait (by decide)

theorem reopened_not_stems : ¬ Stems plainReader reopenedRows ⟨0, "pytest", ["1 passed"]⟩ := by
  rintro ⟨call, output, j, waits, hsequence, -, ⟨id, hcall, houtput, -⟩, hwaits, hlines⟩
  -- The line is that of the wait, which comes after the cell was opened again.
  have hid : id = "a" := by
    rw [hsequence] at hcall
    exact (Row.call.inj (Option.some.inj hcall)).2.1.symm
  subst hid
  obtain ⟨rfl, -, rfl⟩ | ⟨-, hne, -⟩ | ⟨-, hne, -⟩ := reopenedRows_output houtput
  · rw [sessions_read.2.2.2.1] at hwaits
    have hline : "1 passed" ∈ (RecordedCheck.mk 0 "pytest" ["1 passed"]).outcome_lines := mem_singleton_self _
    rw [hlines] at hline
    obtain ⟨text, htext, hline⟩ := mem_flatMap.1 hline
    have heq : text = "1 passed" := by
      by_contra hne
      rw [plainReader] at hline
      dsimp only at hline
      rw [if_neg hne] at hline
      exact nomatch hline
    subst heq
    rcases mem_cons.1 htext with heq | htext
    · exact absurd heq (by decide)
    · obtain ⟨⟨k, _⟩, hw, rfl⟩ := mem_map.1 htext
      obtain ⟨-, ⟨waiting, ⟨id, -, hrow, -⟩, -⟩, hfree⟩ := hwaits _ hw
      obtain ⟨-, -, hne⟩ | ⟨-, -, hne⟩ | ⟨rfl, -, -⟩ := reopenedRows_output hrow
      · exact absurd (show "1 passed" = "Script running with cell ID 5" from hne) (by decide)
      · exact absurd (show "1 passed" = "Script running with cell ID 5" from hne) (by decide)
      · exact hfree 3 (by decide) (by decide) reopened_opened
  · exact absurd hne (by decide)
  · exact absurd hne (by decide)

/-- The lines of a wait are taken for those of a check whose cell another call has opened. -/
theorem reopened_not_attributed : ∃ (lines : List String) (rows : List Row) (checks : List RecordedCheck)
    (narration : List String), rowsOf plainReader lines = some rows ∧ CarryIds rows ∧
      extractLines plainReader lines = some (some (checks, narration)) ∧ ¬ Attributed plainReader rows checks := by
  have hrows : rowsOf plainReader ((checked ++ opened ++ ended).map Prod.fst) = some reopenedRows :=
    rowsOf_map sessions_read.1
  have hresult := sessions_read.2.2.1
  refine ⟨_, reopenedRows, _, _, hrows, ?_, by rw [extractLines, hrows]; exact congrArg some hresult, ?_⟩
  · simp [CarryIds, reopenedRows, checked, opened, ended, callRow, Row.callId]
  rintro ⟨hstems, -⟩
  exact reopened_not_stems (hstems _ (mem_singleton_self _))

end Harvest

end AiOrg
