import Coral.Library.LastRun
import Coral.Temporal.Quiescence
import Mathlib.Data.Multiset.Basic
import Mathlib.Data.Prod.Lex

/-! When the detector says to retire: after two calls or more that saw the same quiet
graph over the whole margin. What was seen before the last change does not matter. -/

namespace Coral.Temporal.Proofs
open Coral.Library Coral.Temporal

structure Sample where
  now : Duration
  agents : List AgentObservation

def Sample.Quiet (sample : Sample) : Prop :=
  sample.agents ≠ [] ∧ ∀ agent ∈ sample.agents, agentQuiescent agent.snapshot = true

/-- What a sample says of the agents, in no order. -/
def Sample.rows (sample : Sample) : Multiset DigestRow := ↑(sample.agents.map AgentObservation.row)

abbrev HeldRun : List Sample → List Sample → Prop := LastRun Sample.Quiet Sample.rows

def fed (waveMargin : Duration) (samples : List Sample) : GraphQuiescence :=
  samples.foldl (fun tracker sample => (tracker.observe sample.now sample.agents).2) (.new waveMargin)

/-- What a new detector answers to the last of the samples. -/
def finalVerdict (waveMargin : Duration) (earlier : List Sample) (last : Sample) : Verdict :=
  ((fed waveMargin earlier).observe last.now last.agents).1

private def rank (row : DigestRow) : List Char ×ₗ ℕ ×ₗ ℕ ×ₗ ℕ :=
  toLex (row.agentId.toList, toLex (row.triggers.toNat, toLex (row.humanOps.toNat, row.mandatePatches.toNat)))

private theorem rank_injective : Function.Injective rank := by
  intro first second same
  have parts := Prod.ext_iff.mp (congrArg ofLex same)
  have counts := Prod.ext_iff.mp (congrArg ofLex parts.2)
  have lasts := Prod.ext_iff.mp (congrArg ofLex counts.2)
  obtain ⟨agentId, triggers, humanOps, patches⟩ := first
  obtain ⟨otherId, otherTriggers, otherOps, otherPatches⟩ := second
  have sameId : agentId = otherId := String.toList_inj.mp parts.1
  have sameTriggers : triggers = otherTriggers := UInt64.toNat_inj.mp counts.1
  have sameOps : humanOps = otherOps := UInt64.toNat_inj.mp lasts.1
  have samePatches : patches = otherPatches := UInt64.toNat_inj.mp lasts.2
  rw [sameId, sameTriggers, sameOps, samePatches]

private theorem le_iff_rank {first second : DigestRow} : first.le second = true ↔ rank first ≤ rank second := by
  unfold DigestRow.le rank
  simp only [Prod.Lex.toLex_le_toLex]
  split
  next other =>
    have unequal : first.agentId.toList ≠ second.agentId.toList := fun same => other (String.toList_inj.mp same)
    simp only [unequal, false_and, or_false, decide_eq_true_eq]
    exact ⟨fun up => lt_of_le_of_ne up unequal, le_of_lt⟩
  next sameId =>
    rw [not_not.mp sameId]
    simp only [lt_irrefl, false_or, true_and]
    split
    next other =>
      have unequal : first.triggers.toNat ≠ second.triggers.toNat := fun same => other (UInt64.toNat_inj.mp same)
      simp only [unequal, false_and, or_false, decide_eq_true_eq, UInt64.le_iff_toNat_le]
      omega
    next sameTriggers =>
      rw [not_not.mp sameTriggers]
      simp only [lt_irrefl, false_or, true_and]
      split
      next other =>
        have unequal : first.humanOps.toNat ≠ second.humanOps.toNat := fun same => other (UInt64.toNat_inj.mp same)
        simp only [unequal, false_and, or_false, decide_eq_true_eq, UInt64.le_iff_toNat_le]
        omega
      next sameOps =>
        rw [not_not.mp sameOps]
        simp only [lt_irrefl, false_or, true_and, decide_eq_true_eq, UInt64.le_iff_toNat_le]

private theorem digest_eq {first second : List AgentObservation} :
    digest first = digest second ↔ (first.map AgentObservation.row).Perm (second.map AgentObservation.row) := by
  have antisymm : ∀ one two : DigestRow, one.le two = true → two.le one = true → one = two := by
    intro one two up down
    exact rank_injective (le_antisymm (le_iff_rank.mp up) (le_iff_rank.mp down))
  have total : Std.Total fun one two : DigestRow => one.le two = true :=
    ⟨fun one two => by simpa only [le_iff_rank] using le_total (rank one) (rank two)⟩
  have transitive : IsTrans DigestRow fun one two => one.le two = true :=
    ⟨fun one two three => by simpa only [le_iff_rank] using le_trans⟩
  unfold digest
  constructor
  · intro same
    refine (List.perm_insertionSort (DigestRow.le · ·) _).symm.trans ?_
    rw [same]
    exact List.perm_insertionSort (DigestRow.le · ·) _
  · intro shuffled
    refine List.Perm.eq_of_pairwise (fun one two _ _ => antisymm one two) (List.pairwise_insertionSort _ _)
      (List.pairwise_insertionSort _ _) ?_
    exact (List.perm_insertionSort _ _).trans (shuffled.trans (List.perm_insertionSort _ _).symm)

theorem rows_eq {first second : Sample} : first.rows = second.rows ↔ digest first.agents = digest second.agents := by
  unfold Sample.rows
  rw [Multiset.coe_eq_coe, digest_eq]

private theorem fed_concat (waveMargin : Duration) (samples : List Sample) (last : Sample) :
    fed waveMargin (samples ++ [last]) = ((fed waveMargin samples).observe last.now last.agents).2 := by
  unfold fed
  rw [List.foldl_append]
  rfl

/-- What the tracker keeps: the first sample of the run it is in. -/
structure Tracks (waveMargin : Duration) (run : List Sample) (tracker : GraphQuiescence) : Prop where
  margin : tracker.waveMargin = waveMargin
  digest : tracker.lastDigest = run.head?.map (digest ·.agents)
  since : tracker.stableSince = run.head?.map (·.now)

/-- One call: it leaves the run, it goes on with it, or it begins the next. -/
inductive Observed (tracker : GraphQuiescence) (sample : Sample) : Verdict × GraphQuiescence → Prop where
  | broken (bad : ¬ sample.Quiet) : Observed tracker sample (.wait, tracker.reset)
  | held (quiet : sample.Quiet) (same : tracker.lastDigest = some (digest sample.agents)) (since : Duration)
      (first : tracker.stableSince = some since) :
      Observed tracker sample
        (if tracker.waveMargin.nanos ≤ (sample.now.saturatingSub since).nanos then .retire else .wait,
          { tracker with stableSince := some since })
  | changed (quiet : sample.Quiet) (other : tracker.lastDigest ≠ some (digest sample.agents)) :
      Observed tracker sample
        (.wait, { tracker with lastDigest := some (digest sample.agents), stableSince := some sample.now })

private theorem quiet_iff (sample : Sample) :
    (!sample.agents.isEmpty && sample.agents.all fun agent => agentQuiescent agent.snapshot) = true ↔ sample.Quiet := by
  unfold Sample.Quiet
  rw [Bool.and_eq_true, Bool.not_eq_true', List.isEmpty_eq_false_iff, List.all_eq_true]

theorem observe_cases {waveMargin : Duration} {run : List Sample} {tracker : GraphQuiescence}
    (tracks : Tracks waveMargin run tracker) (sample : Sample) :
    Observed tracker sample (tracker.observe sample.now sample.agents) := by
  unfold GraphQuiescence.observe
  dsimp only
  split
  next bad => exact .broken (fun quiet => by rw [(quiet_iff sample).mpr quiet] at bad; cases bad)
  next fine =>
    have quiet := (quiet_iff sample).mp (by simpa only [Bool.not_eq_true', Bool.not_eq_false] using fine)
    split
    next same =>
      obtain ⟨first, leads, -⟩ := Option.map_eq_some_iff.mp (tracks.digest.symm.trans same)
      have since : tracker.stableSince = some first.now := by rw [tracks.since, leads]; rfl
      rw [since]
      exact .held quiet same first.now since
    next other => exact .changed quiet other

/-- The tracker after a call is that of the run the history now ends with. -/
theorem Tracks.observe {waveMargin : Duration} {history run : List Sample} {tracker : GraphQuiescence}
    (tracks : Tracks waveMargin run tracker) (held : HeldRun history run) (sample : Sample) :
    ∃ later, HeldRun (history ++ [sample]) later ∧
      Tracks waveMargin later (tracker.observe sample.now sample.agents).2 ∧
      ((tracker.observe sample.now sample.agents).1 = .retire ↔
        ∃ first rest, later = first :: rest ++ [sample] ∧
          waveMargin.nanos ≤ (sample.now.saturatingSub first.now).nanos) := by
  generalize answered : tracker.observe sample.now sample.agents = answer
  have observed := observe_cases tracks sample
  rw [answered] at observed
  cases observed with
  | broken bad =>
    refine ⟨[], LastRun.broken bad, ⟨tracks.margin, rfl, rfl⟩, ?_⟩
    constructor
    · intro impossible; cases impossible
    · rintro ⟨first, rest, whole, -⟩; cases whole
  | held quiet same since began =>
    obtain ⟨first, leads, digested⟩ := Option.map_eq_some_iff.mp (tracks.digest.symm.trans same)
    obtain ⟨rest, rfl⟩ := List.head?_eq_some_iff.mp leads
    have start : since = first.now := Option.some.inj (began.symm.trans tracks.since)
    refine ⟨first :: rest ++ [sample], held.extended quiet (rows_eq.mpr digested), ⟨tracks.margin, tracks.digest, ?_⟩, ?_⟩
    · rw [start]; rfl
    · rw [start, tracks.margin]
      constructor
      · intro retires
        refine ⟨first, rest, rfl, ?_⟩
        by_contra early
        rw [if_neg early] at retires
        cases retires
      · rintro ⟨other, others, whole, enough⟩
        have leader : first = other := (List.cons.inj whole).1
        rw [leader, if_pos enough]
  | changed quiet other =>
    refine ⟨[sample], held.restarted quiet ?_, ⟨tracks.margin, rfl, rfl⟩, ?_⟩
    · intro first leads same
      apply other
      rw [tracks.digest, leads, Option.map_some, rows_eq.mp same]
    · constructor
      · intro impossible; cases impossible
      · rintro ⟨first, rest, whole, -⟩
        have empty := (List.cons.inj whole).2
        exact (List.cons_ne_nil _ _ (List.append_eq_nil_iff.mp empty.symm).2).elim

theorem fed_tracks (waveMargin : Duration) (samples : List Sample) :
    ∃ run, HeldRun samples run ∧ Tracks waveMargin run (fed waveMargin samples) := by
  induction samples using List.reverseRecOn with
  | nil => exact ⟨[], LastRun.nil, rfl, rfl, rfl⟩
  | append_singleton samples sample ih =>
    obtain ⟨run, held, tracks⟩ := ih
    obtain ⟨later, next, kept, -⟩ := tracks.observe held sample
    rw [fed_concat]
    exact ⟨later, next, kept⟩

theorem retires_iff {waveMargin : Duration} {earlier run : List Sample} {last : Sample}
    (held : HeldRun (earlier ++ [last]) run) :
    finalVerdict waveMargin earlier last = .retire ↔
      ∃ first rest, run = first :: rest ++ [last] ∧ waveMargin.nanos ≤ (last.now.saturatingSub first.now).nanos := by
  obtain ⟨before, heldBefore, tracks⟩ := fed_tracks waveMargin earlier
  obtain ⟨later, next, -, verdict⟩ := tracks.observe heldBefore last
  rw [next.unique held] at verdict
  exact verdict

/-- The agents may be listed in any order. -/
def Relisted (first second : Sample) : Prop := first.now = second.now ∧ first.agents.Perm second.agents

theorem observe_relisted (tracker : GraphQuiescence) {first second : Sample} (relisted : Relisted first second) :
    tracker.observe first.now first.agents = tracker.observe second.now second.agents := by
  have same : digest first.agents = digest second.agents := digest_eq.mpr (relisted.2.map _)
  have empty : first.agents.isEmpty = second.agents.isEmpty := by
    rw [Bool.eq_iff_iff, List.isEmpty_iff, List.isEmpty_iff]
    exact ⟨fun none => (none ▸ relisted.2).nil_eq.symm, fun none => (none ▸ relisted.2.symm).nil_eq.symm⟩
  unfold GraphQuiescence.observe
  rw [same, empty, relisted.2.all_eq, relisted.1]

theorem fed_relisted (waveMargin : Duration) {samples others : List Sample}
    (relisted : List.Forall₂ Relisted samples others) : fed waveMargin samples = fed waveMargin others := by
  unfold fed
  generalize GraphQuiescence.new waveMargin = tracker
  induction relisted generalizing tracker with
  | nil => rfl
  | cons same later ih =>
    rw [List.foldl_cons, List.foldl_cons, observe_relisted tracker same, ih]

/-- A sample that breaks the run it could be in, or that differs from the next. -/
def Resets (sample next : Sample) : Prop := ¬ sample.Quiet ∨ sample.rows ≠ next.rows

theorem finalVerdict_resets (waveMargin : Duration) {before after : List Sample} {sample last next : Sample}
    (follows : (after ++ [last]).head? = some next) (resets : Resets sample next) :
    finalVerdict waveMargin (before ++ sample :: after) last = finalVerdict waveMargin after last := by
  obtain ⟨run, held⟩ := LastRun.found Sample.Quiet Sample.rows ((before ++ sample :: after) ++ [last])
  have within : run <:+ after ++ [last] := by
    rw [List.append_assoc, List.cons_append] at held
    rcases resets with bad | changed
    · exact held.after_broken bad
    · obtain ⟨rest, whole⟩ := List.head?_eq_some_iff.mp follows
      rw [whole] at held ⊢
      exact held.after_changed changed
  have shorter : HeldRun (after ++ [last]) run := by
    refine ⟨within, held.calm, fun other later calm => held.longest other (later.trans ?_) calm⟩
    rw [List.append_assoc, List.cons_append]
    exact (List.suffix_cons sample _).trans (List.suffix_append before _)
  have same : finalVerdict waveMargin (before ++ sample :: after) last = .retire ↔
      finalVerdict waveMargin after last = .retire := (retires_iff held).trans (retires_iff shorter).symm
  generalize finalVerdict waveMargin (before ++ sample :: after) last = whole at same ⊢
  cases part : finalVerdict waveMargin after last with
  | retire => exact same.mpr part
  | wait =>
    cases whole with
    | wait => rfl
    | retire => cases part.symm.trans (same.mp rfl)

/-- The detector retires exactly at the end of a run that spans the margin. A sample that
is not quiet, or that the next one differs from, makes it forget all there was; and it does
not see in which order the agents are listed. -/
theorem retire_iff_held (waveMargin : Duration) (earlier : List Sample) (last : Sample)
    (ordered : (earlier ++ [last]).Pairwise fun first second => first.now.nanos ≤ second.now.nanos) :
    (∃ run, HeldRun (earlier ++ [last]) run ∧ (∀ other, HeldRun (earlier ++ [last]) other → other = run) ∧
      (finalVerdict waveMargin earlier last = .retire ↔
        2 ≤ run.length ∧ ∀ first, run.head? = some first → first.now.nanos + waveMargin.nanos ≤ last.now.nanos)) ∧
    (∀ before sample after next, earlier = before ++ sample :: after → (after ++ [last]).head? = some next →
      Resets sample next → finalVerdict waveMargin earlier last = finalVerdict waveMargin after last) ∧
    ∀ others final, List.Forall₂ Relisted earlier others → Relisted last final →
      finalVerdict waveMargin others final = finalVerdict waveMargin earlier last := by
  refine ⟨?_, ?_, ?_⟩
  · obtain ⟨run, held⟩ := LastRun.found Sample.Quiet Sample.rows (earlier ++ [last])
    refine ⟨run, held, fun other found => found.unique held, ?_⟩
    have earliest : ∀ first ∈ run, first.now.nanos ≤ last.now.nanos := by
      intro first member
      rcases List.mem_append.mp (held.suffix.mem member) with before | here
      · exact (List.pairwise_append.mp ordered).2.2 first before last List.mem_cons_self
      · rw [List.mem_singleton.mp here]
    rw [retires_iff held]
    constructor
    · rintro ⟨first, rest, rfl, enough⟩
      refine ⟨by simp, ?_⟩
      intro leader leads
      have soonest := earliest first List.mem_cons_self
      rw [← Option.some.inj leads]
      unfold Duration.saturatingSub at enough
      dsimp only at enough
      omega
    · rintro ⟨two, enough⟩
      rcases List.suffix_concat_iff.mp held.suffix with rfl | ⟨more, rfl, -⟩
      · cases two
      · cases more with
        | nil => exact (Nat.not_succ_le_self 1 two).elim
        | cons first rest =>
          refine ⟨first, rest, rfl, ?_⟩
          have spans := enough first rfl
          unfold Duration.saturatingSub
          dsimp only
          omega
  · rintro before sample after next rfl follows resets
    exact finalVerdict_resets waveMargin follows resets
  · intro others final relisted lastRelisted
    unfold finalVerdict
    rw [fed_relisted waveMargin relisted, observe_relisted _ lastRelisted]

private def idleSnapshot : AgentSnapshot where
  pendingTriggersCount := 0
  pendingHumanOpsCount := 0
  pendingMandatePatchesCount := 0
  retirementRequest := none
  recentOutputIds := []
  cumulativeTriggersObserved := 3
  cumulativeHumanOpsObserved := 0
  cumulativeMandatePatchesObserved := 0
  parked := true
  isNever := true
  tick := 1
  nextWake := none

private def quietAt (seconds : Nat) : Sample := ⟨⟨seconds * 1000000000⟩, [⟨"a", idleSnapshot⟩]⟩

private def busyAt (seconds : Nat) : Sample :=
  ⟨⟨seconds * 1000000000⟩, [⟨"a", { idleSnapshot with parked := false }⟩]⟩

/-- A busy sample in between, after which the margin has to pass once more. -/
theorem retire_iff_held_interrupted :
    finalVerdict ⟨10000000000⟩ [quietAt 0, busyAt 9, quietAt 18] (quietAt 27) = .wait ∧
    finalVerdict ⟨10000000000⟩ [quietAt 0, busyAt 9, quietAt 18, quietAt 27] (quietAt 28) =
      finalVerdict ⟨10000000000⟩ [quietAt 18, quietAt 27] (quietAt 28) ∧
    finalVerdict ⟨10000000000⟩ [quietAt 18, quietAt 27] (quietAt 28) = .retire := by
  refine ⟨by decide, ?_, by decide⟩
  have resets := (retire_iff_held ⟨10000000000⟩ [quietAt 0, busyAt 9, quietAt 18, quietAt 27] (quietAt 28)
    (by simp [quietAt, busyAt])).2.1
  refine resets [quietAt 0] (busyAt 9) [quietAt 18, quietAt 27] (quietAt 18) rfl rfl (.inl ?_)
  intro quiet
  have parked := quiet.2 _ List.mem_cons_self
  cases parked

end Coral.Temporal.Proofs
