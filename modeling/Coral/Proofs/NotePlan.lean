import Coral.Proofs.StoreCalls

/-! Which operations on notes are accepted: those whose path names a note, by the names it
consists of below `notes/`. -/

namespace Coral.Proofs
open Coral.Library

theorem forall₂_mem_right {α β : Type} {related : α → β → Prop} {first : List α} {second : List β}
    (all : List.Forall₂ related first second) {value : β} (member : value ∈ second) :
    ∃ other ∈ first, related other value := by
  induction all with
  | nil => cases member
  | cons related rest ih =>
    rcases List.mem_cons.mp member with rfl | later
    · exact ⟨_, List.mem_cons_self, related⟩
    · obtain ⟨other, found, here⟩ := ih later
      exact ⟨other, List.mem_cons_of_mem _ found, here⟩

theorem forall₂_mem_left {α β : Type} {related : α → β → Prop} {first : List α} {second : List β}
    (all : List.Forall₂ related first second) {value : α} (member : value ∈ first) :
    ∃ other ∈ second, related value other := forall₂_mem_right all.flip member

theorem startsWithText_append (start rest : String) : startsWithText (start ++ rest) start = true := by
  unfold startsWithText
  rw [String.toList_append]
  exact List.isPrefixOf_iff_prefix.mpr (List.prefix_append _ _)

theorem stripStart_append (start rest : String) : stripStart (start ++ rest) start = some rest := by
  unfold stripStart
  rw [if_pos (startsWithText_append start rest), String.toList_append, List.drop_left, String.ofList_toList]

theorem stripStart_eq {text start rest : String} (stripped : stripStart text start = some rest) : text = start ++ rest := by
  unfold stripStart at stripped
  split at stripped
  · rename_i starts
    cases stripped
    obtain ⟨more, whole⟩ := List.isPrefixOf_iff_prefix.mp starts
    apply String.toList_inj.mp
    rw [String.toList_append, String.toList_ofList, ← whole, List.drop_left]
  · cases stripped

theorem key_append (fs : AgentFs) (first second : String) : fs.key (first ++ second) = fs.key first ++ second := by
  unfold AgentFs.key
  rw [String.append_assoc]

def noteKey (fs : AgentFs) (path : List Name) : String := fs.key ("notes/" ++ joinPath path)

theorem stripStart_noteKey (fs : AgentFs) (path : List Name) :
    stripStart (noteKey fs path) (fs.key "notes/") = some (joinPath path) := by
  unfold noteKey
  rw [key_append, stripStart_append]

/-- The note a path names, if it names one. -/
def notePath (raw : String) : Option (List Name) :=
  match plainParts (components raw) with
  | some (first :: rest) =>
    if first.text = "notes" ∧ rest ≠ [] ∧ isNoteRecord (joinPath rest) = true then some rest else none
  | _ => none

theorem isNoteRecord_notePath {raw : String} {path : List Name} (named : notePath raw = some path) :
    path ≠ [] ∧ isNoteRecord (joinPath path) = true := by
  unfold notePath at named
  split at named
  · split at named
    · rename_i inside
      cases named
      exact inside.2
    · cases named
  · cases named

/-- One operation of a batch, as the first pass of `apply_ops` takes it. -/
theorem planOp_spec (fs : AgentFs) (op : FsOp) (ops : List FsOp) :
    match notePath op.path with
    | some path => fs.planOps (op :: ops) = (fs.planOps ops).map ((noteKey fs path, op) :: ·)
    | none => ∃ error, fs.planOps (op :: ops) = .error error ∧ error.isModelFault = true := by
  unfold notePath
  rw [AgentFs.planOps]
  unfold AgentFs.resolveNotesKey
  cases plain : plainParts (components op.path) with
  | none => exact ⟨_, rfl, rfl⟩
  | some parts =>
    cases parts with
    | nil => exact ⟨_, rfl, rfl⟩
    | cons first rest =>
      simp only
      by_cases inside : first.text = "notes" ∧ rest ≠ []
      · rw [if_pos inside]
        have strip := stripStart_noteKey fs rest
        unfold noteKey at strip
        simp only [bind, Except.bind, strip, Option.getD_some]
        cases record : isNoteRecord (joinPath rest) with
        | true =>
          rw [if_pos ⟨inside.1, inside.2, rfl⟩]
          cases fs.planOps ops <;> rfl
        | false =>
          rw [if_neg (by simp)]
          exact ⟨_, rfl, rfl⟩
      · rw [if_neg inside, if_neg fun all => inside ⟨all.1, all.2.1⟩]
        exact ⟨_, rfl, rfl⟩

def Planned (fs : AgentFs) (op : FsOp) (step : String × FsOp) : Prop :=
  ∃ path, notePath op.path = some path ∧ step = (noteKey fs path, op)

theorem planOps_ok {fs : AgentFs} {ops : List FsOp} {planned : List (String × FsOp)}
    (accepted : fs.planOps ops = .ok planned) : List.Forall₂ (Planned fs) ops planned := by
  induction ops generalizing planned with
  | nil =>
    cases accepted
    exact .nil
  | cons op ops ih =>
    have spec := planOp_spec fs op ops
    split at spec
    · rename_i path named
      rw [spec] at accepted
      cases rest : fs.planOps ops with
      | error error => rw [rest] at accepted; cases accepted
      | ok steps =>
        rw [rest] at accepted
        cases accepted
        exact .cons ⟨path, named, rfl⟩ (ih rest)
    · obtain ⟨error, rejected, -⟩ := spec
      rw [rejected] at accepted
      cases accepted

theorem planOps_error {fs : AgentFs} {ops : List FsOp} {error : FsError} (rejected : fs.planOps ops = .error error) :
    error.isModelFault = true ∧ ∃ op ∈ ops, notePath op.path = none := by
  induction ops with
  | nil => cases rejected
  | cons op ops ih =>
    have spec := planOp_spec fs op ops
    split at spec
    · rw [spec] at rejected
      cases rest : fs.planOps ops with
      | error other =>
        rw [rest] at rejected
        cases rejected
        obtain ⟨fault, bad, member, unnamed⟩ := ih rest
        exact ⟨fault, bad, List.mem_cons_of_mem _ member, unnamed⟩
      | ok steps => rw [rest] at rejected; cases rejected
    · rename_i unnamed
      obtain ⟨other, failed, fault⟩ := spec
      rw [failed] at rejected
      cases rejected
      exact ⟨fault, op, List.mem_cons_self, unnamed⟩

end Coral.Proofs
