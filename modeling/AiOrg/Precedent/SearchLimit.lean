import AiOrg.Run.Interleave

/-!
# The shared limit on searches

Processes reserve slots for searches in one ledger, under a lock. A call drops the timestamps that have left the window
and is granted where fewer than the limit are left. So the log of all calls explains itself (`Explained`): no span that
is shorter than the window has more grants than the limit, a refusal waits, and it waits long enough
(`search_limit`).
-/

namespace AiOrg

open List

namespace SearchLimit

def GH_SEARCH_WINDOW_SECONDS : ℚ := 60

/-- `f"{timestamp:.6f}"` in millionths, a half going to the even one. -/
def sixDecimals (timestamp : ℚ) : ℤ :=
  let low := ⌊timestamp * 1000000⌋
  let rest := timestamp * 1000000 - low
  if rest < 1 / 2 then low
  else if 1 / 2 < rest then low + 1
  else if low % 2 = 0 then low
  else low + 1

/-- `float(line)`. -/
def stamp (line : ℤ) : ℚ := line / 1000000

def _read_gh_search_timestamps (ledger : List ℤ) : List ℚ :=
  ((ledger.map stamp).filter (0 < ·)).insertionSort (· ≤ ·)

def _write_gh_search_timestamps (timestamps : List ℚ) : List ℤ := timestamps.map sixDecimals

/-- The timestamps that have not left the window. -/
def inWindow (now : ℚ) (ledger : List ℤ) : List ℚ :=
  (_read_gh_search_timestamps ledger).filter (now - GH_SEARCH_WINDOW_SECONDS < ·)

/-- What a call writes and returns, and whether it has put itself into the ledger. -/
structure Reply where
  ledger : List ℤ
  recorded : Bool
  delay : ℚ

/-- `_reserve_gh_search_slot_or_delay` once it has read; where the limit is not zero there is a first timestamp. -/
def reserve (limit : ℕ) (now : ℚ) (timestamps : List ℚ) : Reply :=
  if timestamps.length < limit then ⟨_write_gh_search_timestamps (timestamps ++ [now]), true, 0⟩
  else ⟨_write_gh_search_timestamps timestamps, false, timestamps.headD 0 + GH_SEARCH_WINDOW_SECONDS - now⟩

/-- Where a process is in a call. -/
inductive Phase
  | idle
  | locked
  | timed (now : ℚ)
  | read (now : ℚ) (timestamps : List ℚ)
  | done (delay : ℚ)

structure Call where
  now : ℚ
  recorded : Bool
  delay : ℚ

/-- The lock, the last reading of the clock, the ledger, and the calls that have written, the last one first. -/
structure Shared (π : Type) where
  lock : Option π
  clock : ℚ
  ledger : List ℤ
  calls : List Call

variable {π : Type}

inductive Step (limit : ℕ) (p : π) : Shared π → Phase → Shared π → Phase → Prop
  | acquire {s : Shared π} : s.lock = none → Step limit p s .idle { s with lock := some p } .locked
  | look {s : Shared π} {now : ℚ} :
      s.clock ≤ now → Step limit p s .locked { s with clock := now } (.timed now)
  | read {s : Shared π} {now : ℚ} : Step limit p s (.timed now) s (.read now (inWindow now s.ledger))
  | write {s : Shared π} {now : ℚ} {timestamps : List ℚ} :
      Step limit p s (.read now timestamps)
        { s with
          ledger := (reserve limit now timestamps).ledger
          calls := ⟨now, (reserve limit now timestamps).recorded, (reserve limit now timestamps).delay⟩ :: s.calls }
        (.done (reserve limit now timestamps).delay)
  | release {s : Shared π} {delay : ℚ} : Step limit p s (.done delay) { s with lock := none } .idle

/-- Before the first call, a microsecond after the epoch or later. -/
def Init (s : Processes π (Shared π) Phase) : Prop :=
  s.shared.lock = none ∧ 1 / 1000000 ≤ s.shared.clock ∧ s.shared.ledger = [] ∧ s.shared.calls = [] ∧
    ∀ p, s.loc p = .idle

theorem sixDecimals_stamp (line : ℤ) : sixDecimals (stamp line) = line := by
  have hscaled : stamp line * 1000000 = line := div_mul_cancel₀ _ (by norm_num)
  simp [sixDecimals, hscaled]

theorem abs_stamp_sixDecimals (timestamp : ℚ) : |stamp (sixDecimals timestamp) - timestamp| ≤ 1 / 2000000 := by
  have hlow := Int.floor_le (timestamp * 1000000)
  have hhigh := Int.lt_floor_add_one (timestamp * 1000000)
  have hstamp : stamp (sixDecimals timestamp) - timestamp =
      ((sixDecimals timestamp : ℚ) - timestamp * 1000000) / 1000000 := by
    rw [stamp]
    ring
  have hnear : |(sixDecimals timestamp : ℚ) - timestamp * 1000000| ≤ 1 / 2 := by
    unfold sixDecimals
    dsimp only
    rw [abs_le]
    split_ifs <;> push_cast <;> constructor <;> linarith
  rw [hstamp, abs_div, abs_of_pos (by norm_num : (0 : ℚ) < 1000000)]
  linarith

/-- The lines of the recorded calls that are in the window. -/
def kept (now : ℚ) (calls : List Call) : List ℤ :=
  ((calls.filter Call.recorded).map fun c => sixDecimals c.now).filter fun line =>
    now - GH_SEARCH_WINDOW_SECONDS < stamp line

/-- A call is granted where fewer than the limit are in the window, and otherwise refused until one of them leaves. -/
def Explained (limit : ℕ) : List Call → Prop
  | [] => True
  | c :: older => Explained limit older ∧ (∀ o ∈ older, o.now ≤ c.now) ∧
    (c.recorded = true ∧ c.delay = 0 ∧ (kept c.now older).length < limit ∨
      c.recorded = false ∧ (kept c.now older).length = limit ∧
        ∃ line ∈ kept c.now older, c.delay = stamp line + GH_SEARCH_WINDOW_SECONDS - c.now)

section Kept

variable {limit : ℕ} {now later : ℚ} {c : Call} {calls : List Call} {line : ℤ}

theorem mem_kept : line ∈ kept now calls ↔
    (∃ c ∈ calls, c.recorded = true ∧ sixDecimals c.now = line) ∧ now - GH_SEARCH_WINDOW_SECONDS < stamp line := by
  simp [kept, and_assoc]

theorem kept_filter (h : now ≤ later) :
    (kept now calls).filter (fun line => later - GH_SEARCH_WINDOW_SECONDS < stamp line) = kept later calls := by
  unfold kept
  rw [filter_filter]
  refine filter_congr fun line _ => ?_
  by_cases hline : later - GH_SEARCH_WINDOW_SECONDS < stamp line
  · have : now - GH_SEARCH_WINDOW_SECONDS < stamp line := by linarith
    simp [hline, this]
  · simp [hline]

theorem kept_cons_refused (h : c.recorded = false) : kept now (c :: calls) = kept now calls := by
  simp [kept, h]

/-- A call is still in the window when it is made. -/
theorem kept_cons_recorded (h : c.recorded = true) :
    kept c.now (c :: calls) = sixDecimals c.now :: kept c.now calls := by
  have hnear := (abs_le.1 (abs_stamp_sixDecimals c.now)).1
  have hin : c.now - GH_SEARCH_WINDOW_SECONDS < stamp (sixDecimals c.now) := by
    unfold GH_SEARCH_WINDOW_SECONDS
    linarith
  simp [kept, h, hin]

theorem Explained.delay (h : Explained limit calls) (hc : c ∈ calls) :
    if c.recorded then c.delay = 0 else 0 < c.delay := by
  induction calls with
  | nil => cases hc
  | cons first older ih =>
    obtain ⟨holder, -, hfirst⟩ := h
    rcases mem_cons.1 hc with rfl | hc
    · rcases hfirst with ⟨hrecorded, hdelay, -⟩ | ⟨hrecorded, -, line, hline, hdelay⟩
      · rwa [if_pos hrecorded]
      · have := (mem_kept.1 hline).2
        rw [if_neg (by simp [hrecorded])]
        linarith
    · exact ih holder hc

theorem Explained.granted_iff (h : Explained limit calls) (hc : c ∈ calls) : c.delay ≤ 0 ↔ c.recorded = true := by
  have hdelay := h.delay hc
  split_ifs at hdelay with hrecorded
  · exact iff_of_true hdelay.le hrecorded
  · exact iff_of_false (not_le.2 hdelay) hrecorded

/-- Calls that are granted in a span that is shorter than the window are all in the window at the last one. -/
theorem Explained.span (h : Explained limit calls) (start : ℚ) :
    (calls.filter fun c => c.recorded && decide (start ≤ c.now) &&
      decide (c.now ≤ start + (GH_SEARCH_WINDOW_SECONDS - 1 / 1000000))).length ≤ limit := by
  induction calls with
  | nil => exact Nat.zero_le _
  | cons c older ih =>
    obtain ⟨holder, htimes, hc⟩ := h
    rw [filter_cons]
    split_ifs with hspan
    · simp only [Bool.and_eq_true, decide_eq_true_eq] at hspan
      obtain ⟨⟨hrecorded, hstart⟩, hend⟩ := hspan
      rcases hc with ⟨-, -, hroom⟩ | ⟨hrefused, -⟩
      · refine Nat.succ_le_of_lt (lt_of_le_of_lt ?_ hroom)
        have hkept : ((older.filter fun o => o.recorded && decide (start ≤ o.now) &&
            decide (o.now ≤ start + (GH_SEARCH_WINDOW_SECONDS - 1 / 1000000))).map fun o =>
              sixDecimals o.now).Sublist (kept c.now older) := by
          unfold kept
          rw [filter_map, filter_filter]
          refine List.Sublist.map _ (monotone_filter_right _ fun o ho => ?_)
          simp only [Bool.and_eq_true, decide_eq_true_eq] at ho
          have hnear := (abs_le.1 (abs_stamp_sixDecimals o.now)).1
          simp only [Function.comp_apply, Bool.and_eq_true, decide_eq_true_eq]
          exact ⟨by linarith [ho.1.2], ho.1.1⟩
        simpa using hkept.length_le
      · rw [hrefused] at hrecorded
        cases hrecorded
    · exact ih holder

theorem kept_append_refused {middle : List Call} (h : ∀ m ∈ middle, m.recorded = false) :
    kept now (middle ++ calls) = kept now calls := by
  have hnil : middle.filter Call.recorded = [] := filter_eq_nil_iff.2 fun m hm => by simp [h m hm]
  rw [kept, filter_append, hnil, nil_append]
  rfl

theorem Explained.suffix {newer : List Call} (h : Explained limit (newer ++ calls)) : Explained limit calls := by
  induction newer with
  | nil => exact h
  | cons c newer ih => exact ih h.1

/-- Where no call is granted meanwhile, a call after the delay of a refusal is. -/
theorem Explained.after_delay {refused : Call} {middle older : List Call}
    (h : Explained limit (c :: (middle ++ refused :: older))) (hrefused : refused.recorded = false)
    (hmiddle : ∀ m ∈ middle, m.recorded = false) (hafter : refused.now + refused.delay ≤ c.now) :
    c.recorded = true := by
  obtain ⟨hlog, htimes, hc⟩ := h
  obtain ⟨-, -, hreply⟩ := hlog.suffix
  rcases hc with ⟨hrecorded, -⟩ | ⟨-, hfull, -⟩
  · exact hrecorded
  rcases hreply with ⟨hrecorded, -⟩ | ⟨-, hlength, line, hline, hdelay⟩
  · rw [hrefused] at hrecorded
    cases hrecorded
  -- the line that the refusal waited for has left the window
  have hle : refused.now ≤ c.now := htimes refused (by simp)
  have hleft : ((kept refused.now older).filter fun line =>
      c.now - GH_SEARCH_WINDOW_SECONDS < stamp line).length < (kept refused.now older).length := by
    refine length_filter_lt_length_iff_exists.2 ⟨line, hline, ?_⟩
    simp only [decide_eq_true_eq, not_lt]
    linarith
  rw [kept_append_refused hmiddle, kept_cons_refused hrefused] at hfull
  rw [kept_filter hle, hfull, hlength] at hleft
  exact absurd hleft (lt_irrefl _)

end Kept

/-- The ledger holds the calls that were in the window at the last call. -/
structure Sound (limit : ℕ) (clock : ℚ) (ledger : List ℤ) (calls : List Call) : Prop where
  log : Explained limit calls
  epoch : 1 / 1000000 ≤ clock
  times : ∀ c ∈ calls, 1 / 1000000 ≤ c.now ∧ c.now ≤ clock
  window : ∃ last ≤ clock, ledger.Perm (kept last calls)
  short : ledger.length ≤ limit

section Sound

variable {limit : ℕ} {clock now : ℚ} {ledger : List ℤ} {calls : List Call}

theorem Sound.later (h : Sound limit clock ledger calls) (hnow : clock ≤ now) : Sound limit now ledger calls := by
  obtain ⟨last, hlast, hperm⟩ := h.window
  exact ⟨h.log, h.epoch.trans hnow, fun c hc => ⟨(h.times c hc).1, (h.times c hc).2.trans hnow⟩,
    ⟨last, hlast.trans hnow, hperm⟩, h.short⟩

theorem Sound.kept_perm (h : Sound limit clock ledger calls) :
    (ledger.filter fun line => clock - GH_SEARCH_WINDOW_SECONDS < stamp line).Perm (kept clock calls) := by
  obtain ⟨last, hlast, hperm⟩ := h.window
  rw [← kept_filter hlast]
  exact hperm.filter _

/-- What a call finds in the window are the recorded calls in it. -/
theorem Sound.inWindow_perm (h : Sound limit clock ledger calls) :
    (inWindow clock ledger).Perm ((kept clock calls).map stamp) := by
  have hpos : ∀ line ∈ ledger, 0 < stamp line := by
    intro line hline
    obtain ⟨last, -, hperm⟩ := h.window
    obtain ⟨⟨c, hc, -, rfl⟩, -⟩ := mem_kept.1 (hperm.mem_iff.1 hline)
    have hnear := (abs_le.1 (abs_stamp_sixDecimals c.now)).1
    have hnow := (h.times c hc).1
    linarith
  have hread : (_read_gh_search_timestamps ledger).Perm (ledger.map stamp) := by
    unfold _read_gh_search_timestamps
    rw [filter_eq_self.2 (by simpa using hpos)]
    exact perm_insertionSort _ _
  refine (hread.filter _).trans ?_
  rw [filter_map]
  exact h.kept_perm.map stamp

theorem write_stamps (lines : List ℤ) : _write_gh_search_timestamps (lines.map stamp) = lines := by
  rw [_write_gh_search_timestamps, map_map]
  exact (map_congr_left fun line _ => sixDecimals_stamp line).trans (map_id _)

/-- What one call keeps. -/
theorem Sound.call (hlimit : 1 ≤ limit) (h : Sound limit clock ledger calls) :
    Sound limit clock (reserve limit clock (inWindow clock ledger)).ledger
      (⟨clock, (reserve limit clock (inWindow clock ledger)).recorded,
        (reserve limit clock (inWindow clock ledger)).delay⟩ :: calls) := by
  have hperm := h.inWindow_perm
  have hlength : (inWindow clock ledger).length = (kept clock calls).length := by
    rw [hperm.length_eq, length_map]
  have hwrite : (_write_gh_search_timestamps (inWindow clock ledger)).Perm (kept clock calls) := by
    rw [← write_stamps (kept clock calls)]
    exact hperm.map sixDecimals
  have htimes : ∀ o ∈ calls, o.now ≤ clock := fun o ho => (h.times o ho).2
  unfold reserve
  split_ifs with hroom
  · refine ⟨⟨h.log, htimes, .inl ⟨rfl, rfl, hlength ▸ hroom⟩⟩, h.epoch,
      forall_mem_cons.2 ⟨⟨h.epoch, le_rfl⟩, h.times⟩, ⟨clock, le_rfl, ?_⟩, ?_⟩
    · have hkept : kept clock (⟨clock, true, 0⟩ :: calls) = sixDecimals clock :: kept clock calls :=
        kept_cons_recorded (c := ⟨clock, true, 0⟩) rfl
      rw [hkept]
      unfold _write_gh_search_timestamps
      rw [map_append, map_singleton]
      exact (perm_append_singleton _ _).trans (hwrite.cons _)
    · simpa [_write_gh_search_timestamps] using hroom
  · have hle : (kept clock calls).length ≤ limit :=
      h.kept_perm.length_eq ▸ (length_filter_le _ _).trans h.short
    have hfull : (kept clock calls).length = limit := le_antisymm hle (hlength ▸ not_lt.1 hroom)
    have hhead : ∃ line ∈ kept clock calls, (inWindow clock ledger).headD 0 = stamp line := by
      rcases hwindow : inWindow clock ledger with _ | ⟨first, others⟩
      · rw [hwindow, length_nil] at hroom
        omega
      · rw [hwindow] at hperm
        obtain ⟨line, hline, heq⟩ := mem_map.1 (hperm.mem_iff.1 mem_cons_self)
        exact ⟨line, hline, heq.symm⟩
    obtain ⟨line, hline, hfirst⟩ := hhead
    refine ⟨⟨h.log, htimes, .inr ⟨rfl, hfull, line, hline, by rw [hfirst]⟩⟩, h.epoch,
      forall_mem_cons.2 ⟨⟨h.epoch, le_rfl⟩, h.times⟩, ⟨clock, le_rfl, ?_⟩, ?_⟩
    · exact hwrite
    · rw [hwrite.length_eq]
      exact hle

end Sound

/-- A process in a call holds the lock, and what it has read is still so. -/
def Phase.Holds (s : Shared π) (p : π) : Phase → Prop
  | .idle => True
  | .locked => s.lock = some p
  | .timed now => s.lock = some p ∧ now = s.clock
  | .read now timestamps => s.lock = some p ∧ now = s.clock ∧ timestamps = inWindow now s.ledger
  | .done _ => s.lock = some p

theorem Phase.Holds.idle {s : Shared π} {p : π} {phase : Phase} (h : phase.Holds s p) (hlock : s.lock ≠ some p) :
    phase = .idle := by
  cases phase with
  | idle => rfl
  | locked => exact absurd h hlock
  | timed now => exact absurd h.1 hlock
  | read now timestamps => exact absurd h.1 hlock
  | done delay => exact absurd h hlock

variable [DecidableEq π] {limit : ℕ}

def Kept (limit : ℕ) (s : Processes π (Shared π) Phase) : Prop :=
  Sound limit s.shared.clock s.shared.ledger s.shared.calls ∧ ∀ p, (s.loc p).Holds s.shared p

/-- A step of the process that holds the lock, or takes it. -/
theorem Kept.step (hlimit : 1 ≤ limit) {s s' : Processes π (Shared π) Phase} (h : Kept limit s)
    (hstep : Processes.Step (Step limit) s s') : Kept limit s' := by
  obtain ⟨hsound, hholds⟩ := h
  obtain ⟨p, htake⟩ := hstep
  rename_i shared phase
  have hown := hholds p
  have hfree : ∀ q ≠ p, s.shared.lock ≠ some q := by
    intro q hq hlock
    generalize s.loc p = before at htake hown
    cases htake with
    | acquire hnone => simp [hnone] at hlock
    | look _ => exact hq (Option.eq_some_unique hlock hown)
    | read => exact hq (Option.some.inj (hlock.symm.trans hown.1))
    | write => exact hq (Option.some.inj (hlock.symm.trans hown.1))
    | release => exact hq (Option.eq_some_unique hlock hown)
  have hkept : Sound limit shared.clock shared.ledger shared.calls ∧ phase.Holds shared p := by
    generalize s.loc p = before at htake hown
    cases htake with
    | acquire _ => exact ⟨hsound, rfl⟩
    | look hnow => exact ⟨hsound.later hnow, hown, rfl⟩
    | read => exact ⟨hsound, hown.1, hown.2, rfl⟩
    | write =>
      obtain ⟨hlock, rfl, rfl⟩ := hown
      exact ⟨hsound.call hlimit, hlock⟩
    | release => exact ⟨hsound, trivial⟩
  refine ⟨hkept.1, fun q => ?_⟩
  by_cases hq : q = p
  · subst hq
    simpa using hkept.2
  · dsimp only
    rw [Function.update_of_ne hq, (hholds q).idle (hfree q hq)]
    trivial

theorem kept_of_reachable (hlimit : 1 ≤ limit) {s : Processes π (Shared π) Phase}
    (h : Processes.Reachable Init (Step limit) s) : Kept limit s := by
  refine h.invariant (fun s₀ hs₀ => ?_) fun _ _ _ hs hstep => hs.step hlimit hstep
  obtain ⟨-, hclock, hledger, hcalls, hidle⟩ := hs₀
  refine ⟨?_, fun p => by rw [hidle p]; trivial⟩
  rw [hledger, hcalls]
  exact ⟨trivial, hclock, by simp, ⟨_, le_rfl, List.Perm.refl _⟩, Nat.zero_le _⟩

/-- In a span that is shorter than the window by a microsecond no more calls are granted than the limit, a call that is
not recorded has to wait, and after its delay a call is granted if none was meanwhile. -/
theorem search_limit (hlimit : 1 ≤ limit) {s : Processes π (Shared π) Phase}
    (h : Processes.Reachable Init (Step limit) s) :
    (∀ start, (s.shared.calls.filter fun c => decide (c.delay ≤ 0) && decide (start ≤ c.now) &&
      decide (c.now ≤ start + (GH_SEARCH_WINDOW_SECONDS - 1 / 1000000))).length ≤ limit) ∧
    (∀ c ∈ s.shared.calls, if c.recorded then c.delay = 0 else 0 < c.delay) ∧
    ∀ newer c middle refused older, s.shared.calls = newer ++ c :: (middle ++ refused :: older) →
      0 < refused.delay → (∀ m ∈ middle, 0 < m.delay) →
        refused.now + refused.delay + 1 / 1000000 ≤ c.now → c.recorded = true ∧ c.delay = 0 := by
  have hlog := (kept_of_reachable hlimit h).1.log
  have hgranted : ∀ {c}, c ∈ s.shared.calls → (c.delay ≤ 0 ↔ c.recorded = true) := fun hc => hlog.granted_iff hc
  refine ⟨fun start => ?_, fun c hc => hlog.delay hc, ?_⟩
  · refine le_of_eq_of_le (congrArg List.length (filter_congr fun c hc => ?_)) (hlog.span start)
    have hdecide : decide (c.delay ≤ 0) = c.recorded := by
      rw [Bool.eq_iff_iff, decide_eq_true_iff]
      exact hgranted hc
    rw [hdecide]
  · intro newer c middle refused older hcalls hrefused hmiddle hafter
    have hwaits : ∀ o ∈ s.shared.calls, 0 < o.delay → o.recorded = false := fun o ho hdelay =>
      Bool.eq_false_iff.2 fun hrecorded => absurd ((hgranted ho).2 hrecorded) (not_le.2 hdelay)
    have hsuffix : Explained limit (c :: (middle ++ refused :: older)) :=
      Explained.suffix (hcalls ▸ hlog)
    have hrecorded := hsuffix.after_delay (hwaits refused (by simp [hcalls]) hrefused)
      (fun m hm => hwaits m (by simp [hcalls, hm]) (hmiddle m hm)) (by linarith)
    have hdelay := hsuffix.delay mem_cons_self
    exact ⟨hrecorded, by rwa [if_pos hrecorded] at hdelay⟩

theorem search_limit_call : ∃ s : Processes Unit (Shared Unit) Phase, s.shared.calls = [⟨1, true, 0⟩] ∧
    ∀ c ∈ s.shared.calls, if c.recorded then c.delay = 0 else 0 < c.delay := by
  let s₀ : Processes Unit (Shared Unit) Phase := ⟨⟨none, 1, [], []⟩, fun _ => .idle⟩
  have hinit : Init s₀ := ⟨rfl, by norm_num, rfl, rfl, fun _ => rfl⟩
  obtain ⟨s, hrun, hshared, -⟩ := Processes.Run.solo (Step 1) () (a := (s₀.shared, .idle)) (s := s₀)
    ((((Relation.ReflTransGen.single (b := (_, _)) (Step.acquire rfl)).tail (c := (_, _)) (Step.look le_rfl)).tail
      (c := (_, _)) Step.read).tail (c := (_, _)) Step.write) rfl rfl
  exact ⟨s, by rw [hshared]; rfl, (search_limit le_rfl ⟨s₀, hinit, hrun⟩).2.1⟩

end SearchLimit

end AiOrg
