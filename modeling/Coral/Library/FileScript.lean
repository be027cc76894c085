import Coral.Library.FileTree
import Coral.Library.Machine

/-! Computations over a file tree, one system call after another. Any call may fail, a write
may be torn, and the process may stop before any of them. `Holds` is a logic for what the
tree keeps at every one of these points, and what it is when the computation returns. -/

namespace Coral.Library

inductive FileScript (κ α β : Type) where
  | done (value : β)
  | exists_ (path : List κ) (next : Bool → FileScript κ α β)
  | read (path : List κ) (next : Except Errno α → FileScript κ α β)
  | createDirAll (path : List κ) (next : Except Errno Unit → FileScript κ α β)
  | write (path : List κ) (content : α) (next : Except Errno Unit → FileScript κ α β)
  | rename (source target : List κ) (next : Except Errno Unit → FileScript κ α β)

inductive FileEvent (α : Type) where
  | proceed
  /-- A write that is not finished leaves this. -/
  | tear (torn : α)
  | fail (errno : Errno)

variable {κ α β γ : Type} [DecidableEq κ]

def FileTree.readFile (tree : FileTree κ α) (path : List κ) : Except Errno α :=
  match tree.resolve path with
  | .ok (.file content) => .ok content
  | .ok .dir => .error .isADirectory
  | .error errno => .error errno

namespace FileScript

omit [DecidableEq κ] in
def bind (script : FileScript κ α β) (after : β → FileScript κ α γ) : FileScript κ α γ :=
  match script with
  | .done value => after value
  | .exists_ path next => .exists_ path fun found => (next found).bind after
  | .read path next => .read path fun result => (next result).bind after
  | .createDirAll path next => .createDirAll path fun result => (next result).bind after
  | .write path content next => .write path content fun result => (next result).bind after
  | .rename source target next => .rename source target fun result => (next result).bind after

instance : Monad (FileScript κ α) where
  pure := .done
  bind := .bind

/-- What is there cannot be told when `stat` fails: `Path::exists` then says that there is
nothing. -/
def step : FileScript κ α β → FileTree κ α → FileEvent α → Option (FileScript κ α β × FileTree κ α)
  | .exists_ path next, tree, .proceed => some (next (tree.lookup path).isSome, tree)
  | .exists_ _ next, tree, .fail _ => some (next false, tree)
  | .read path next, tree, .proceed => some (next (tree.readFile path), tree)
  | .read _ next, tree, .fail errno => some (next (.error errno), tree)
  | .createDirAll path next, tree, .proceed =>
    match tree.createDirAll path with
    | .ok made => some (next (.ok ()), made)
    | .error errno => some (next (.error errno), tree)
  | .createDirAll _ next, tree, .fail errno => some (next (.error errno), tree)
  | .write path content next, tree, .proceed =>
    match tree.create path content with
    | .ok written => some (next (.ok ()), written)
    | .error errno => some (next (.error errno), tree)
  | .write path content next, tree, .tear torn =>
    match tree.create path torn with
    | .ok partway => some (.write path content next, partway)
    | .error _ => none
  | .write _ _ next, tree, .fail errno => some (next (.error errno), tree)
  | .rename source target next, tree, .proceed =>
    match tree.move source target with
    | .ok moved => some (next (.ok ()), moved)
    | .error errno => some (next (.error errno), tree)
  | .rename _ _ next, tree, .fail errno => some (next (.error errno), tree)
  | .done _, _, _ | .exists_ .., _, .tear _ | .read .., _, .tear _ | .createDirAll .., _, .tear _
  | .rename .., _, .tear _ => none

/-- To the end, without a fault. -/
def run : FileScript κ α β → FileTree κ α → β × FileTree κ α
  | .done value, tree => (value, tree)
  | .exists_ path next, tree => (next (tree.lookup path).isSome).run tree
  | .read path next, tree => (next (tree.readFile path)).run tree
  | .createDirAll path next, tree =>
    match tree.createDirAll path with
    | .ok made => (next (.ok ())).run made
    | .error errno => (next (.error errno)).run tree
  | .write path content next, tree =>
    match tree.create path content with
    | .ok written => (next (.ok ())).run written
    | .error errno => (next (.error errno)).run tree
  | .rename source target next, tree =>
    match tree.move source target with
    | .ok moved => (next (.ok ())).run moved
    | .error errno => (next (.error errno)).run tree

theorem run_bind (script : FileScript κ α β) (after : β → FileScript κ α γ) (tree : FileTree κ α) :
    (script.bind after).run tree = (after (script.run tree).1).run (script.run tree).2 := by
  induction script generalizing tree with
  | done value => rfl
  | exists_ path next ih => exact ih _ tree
  | read path next ih => exact ih _ tree
  | createDirAll path next ih => simp only [bind, run]; split <;> exact ih ..
  | write path content next ih => simp only [bind, run]; split <;> exact ih ..
  | rename source target next ih => simp only [bind, run]; split <;> exact ih ..

/-- A check that fails is one that would have found nothing. -/
def Sighted : FileScript κ α β → FileTree κ α → FileEvent α → Prop
  | .exists_ path _, tree, .fail _ => tree.lookup path = none
  | _, _, _ => True

instance (tree : FileTree κ α) : (script : FileScript κ α β) → (event : FileEvent α) → Decidable (Sighted script tree event)
  | .exists_ path _, .fail _ => inferInstanceAs (Decidable (tree.lookup path = none))
  | .exists_ .., .proceed | .exists_ .., .tear _ | .done _, _ | .read .., _ | .createDirAll .., _ | .write .., _
  | .rename .., _ => isTrue trivial

/-- The trees differ at the path at most, and where they do a file is there. -/
structure Beside (path : List κ) (before after : FileTree κ α) : Prop where
  rest : ∀ other, other ≠ path → after.lookup other = before.lookup other
  here : after.lookup path = before.lookup path ∨
    before.lookup path ≠ some .dir ∧ ∃ content, after.lookup path = some (.file content)

theorem Beside.refl (path : List κ) (tree : FileTree κ α) : Beside path tree tree := ⟨fun _ _ => rfl, .inl rfl⟩

theorem Beside.trans {path : List κ} {first second third : FileTree κ α} (one : Beside path first second)
    (two : Beside path second third) : Beside path first third := by
  refine ⟨fun other apart => (two.rest other apart).trans (one.rest other apart), ?_⟩
  rcases two.here with same | ⟨free, file⟩
  · rw [same]
    exact one.here
  · rcases one.here with same | ⟨before, -⟩
    · exact .inr ⟨same ▸ free, file⟩
    · exact .inr ⟨before, file⟩

theorem beside_create {tree after : FileTree κ α} {path : List κ} {content : α}
    (created : tree.create path content = .ok after) : Beside path tree after := by
  have free : tree.lookup path ≠ some .dir := by
    intro dir
    unfold FileTree.create at created
    rw [dif_pos (FileTree.shape_dir_iff.mpr dir)] at created
    cases created
  refine ⟨?_, .inr ⟨free, content, ?_⟩⟩
  · intro other apart
    rw [FileTree.create_ok created, if_neg apart]
  · rw [FileTree.create_ok created, if_pos rfl]

/-- The tree keeps `crash` as long as the script goes on, and meets `post` when it returns.
Each call has one case for its effect and one for its failure. -/
inductive Holds (crash : FileTree κ α → Prop) (post : β → FileTree κ α → Prop) :
    FileScript κ α β → FileTree κ α → Prop where
  | done {value : β} {tree : FileTree κ α} (kept : crash tree) (returned : post value tree) :
      Holds crash post (.done value) tree
  | exists_ {path : List κ} {next : Bool → FileScript κ α β} {tree : FileTree κ α} (kept : crash tree)
      (later : Holds crash post (next (tree.lookup path).isSome) tree) : Holds crash post (.exists_ path next) tree
  | read {path : List κ} {next : Except Errno α → FileScript κ α β} {tree : FileTree κ α} (kept : crash tree)
      (later : Holds crash post (next (tree.readFile path)) tree)
      (failed : ∀ errno, Holds crash post (next (.error errno)) tree) : Holds crash post (.read path next) tree
  | createDirAll {path : List κ} {next : Except Errno Unit → FileScript κ α β} {tree : FileTree κ α}
      (kept : crash tree)
      (later : ∀ made, tree.createDirAll path = .ok made → Holds crash post (next (.ok ())) made)
      (failed : ∀ errno, Holds crash post (next (.error errno)) tree) :
      Holds crash post (.createDirAll path next) tree
  | write {path : List κ} {content : α} {next : Except Errno Unit → FileScript κ α β} {tree : FileTree κ α}
      (kept : ∀ partway, Beside path tree partway → crash partway)
      (later : ∀ written, Beside path tree written → written.lookup path = some (.file content) →
        Holds crash post (next (.ok ())) written)
      (failed : ∀ errno partway, Beside path tree partway → Holds crash post (next (.error errno)) partway) :
      Holds crash post (.write path content next) tree
  | rename {source target : List κ} {next : Except Errno Unit → FileScript κ α β} {tree : FileTree κ α}
      (kept : crash tree)
      (later : ∀ moved, tree.move source target = .ok moved → Holds crash post (next (.ok ())) moved)
      (failed : ∀ errno, Holds crash post (next (.error errno)) tree) : Holds crash post (.rename source target next) tree

namespace Holds

variable {crash : FileTree κ α → Prop} {post : β → FileTree κ α → Prop} {script next : FileScript κ α β}
  {tree after : FileTree κ α}

theorem kept (holds : Holds crash post script tree) : crash tree := by
  cases holds with
  | done kept => exact kept
  | exists_ kept => exact kept
  | read kept => exact kept
  | createDirAll kept => exact kept
  | write kept => exact kept tree (.refl _ _)
  | rename kept => exact kept

theorem returned {value : β} (holds : Holds crash post (.done value) tree) : post value tree := by
  cases holds with
  | done _ returned => exact returned

theorem step {event : FileEvent α} (holds : Holds crash post script tree) (sighted : Sighted script tree event)
    (stepped : script.step tree event = some (next, after)) : Holds crash post next after := by
  cases holds with
  | done => cases event <;> cases stepped
  | exists_ kept later =>
    cases event with
    | proceed => cases stepped; exact later
    | tear torn => cases stepped
    | fail errno =>
      cases stepped
      rw [show tree.lookup _ = none from sighted] at later
      exact later
  | read kept later failed =>
    cases event with
    | proceed => cases stepped; exact later
    | tear torn => cases stepped
    | fail errno => cases stepped; exact failed errno
  | createDirAll kept later failed =>
    cases event with
    | proceed =>
      simp only [FileScript.step] at stepped
      split at stepped
      next made created => cases stepped; exact later _ created
      next errno _ => cases stepped; exact failed errno
    | tear torn => cases stepped
    | fail errno => cases stepped; exact failed errno
  | write kept later failed =>
    cases event with
    | proceed =>
      simp only [FileScript.step] at stepped
      split at stepped
      next written created =>
        cases stepped
        refine later _ (beside_create created) ?_
        rw [FileTree.create_ok created, if_pos rfl]
      next errno _ => cases stepped; exact failed errno _ (.refl _ _)
    | tear torn =>
      simp only [FileScript.step] at stepped
      split at stepped
      next partway created =>
        cases stepped
        have torn := beside_create created
        exact .write (fun partway more => kept partway (torn.trans more))
          (fun written more => later written (torn.trans more))
          (fun errno partway more => failed errno partway (torn.trans more))
      next => cases stepped
    | fail errno => cases stepped; exact failed errno _ (.refl _ _)
  | rename kept later failed =>
    cases event with
    | proceed =>
      simp only [FileScript.step] at stepped
      split at stepped
      next moved renamed => cases stepped; exact later _ renamed
      next errno _ => cases stepped; exact failed errno
    | tear torn => cases stepped
    | fail errno => cases stepped; exact failed errno

theorem bind {middle : γ → FileTree κ α → Prop} {first : FileScript κ α γ} {later : γ → FileScript κ α β}
    (holds : Holds crash middle first tree)
    (rest : ∀ value between, crash between → middle value between → Holds crash post (later value) between) :
    Holds crash post (first.bind later) tree := by
  induction holds with
  | done kept returned => exact rest _ _ kept returned
  | exists_ kept _ ih => exact .exists_ kept ih
  | read kept _ _ ih failed => exact .read kept ih failed
  | createDirAll kept _ _ ih failed => exact .createDirAll kept ih failed
  | write kept _ _ ih failed => exact .write kept ih failed
  | rename kept _ _ ih failed => exact .rename kept ih failed

protected theorem trivial (script : FileScript κ α β) (tree : FileTree κ α) :
    Holds (fun _ => True) (fun _ _ => True) script tree := by
  induction script generalizing tree with
  | done value => exact .done trivial trivial
  | exists_ path next ih => exact .exists_ trivial (ih _ tree)
  | read path next ih => exact .read trivial (ih _ tree) fun errno => ih _ tree
  | createDirAll path next ih => exact .createDirAll trivial (fun made _ => ih _ made) fun errno => ih _ tree
  | write path content next ih =>
    exact .write (fun _ _ => trivial) (fun written _ _ => ih _ written) fun errno partway _ => ih _ partway
  | rename source target next ih => exact .rename trivial (fun moved _ => ih _ moved) fun errno => ih _ tree

theorem weaken {crash' : FileTree κ α → Prop} {post' : β → FileTree κ α → Prop} (holds : Holds crash post script tree)
    (kept : ∀ tree, crash tree → crash' tree) (returned : ∀ value tree, post value tree → post' value tree) :
    Holds crash' post' script tree := by
  induction holds with
  | done here value => exact .done (kept _ here) (returned _ _ value)
  | exists_ here _ ih => exact .exists_ (kept _ here) ih
  | read here _ _ ih failed => exact .read (kept _ here) ih failed
  | createDirAll here _ _ ih failed => exact .createDirAll (kept _ here) ih failed
  | write here _ _ ih failed => exact .write (fun partway beside => kept _ (here partway beside)) ih failed
  | rename here _ _ ih failed => exact .rename (kept _ here) ih failed

end Holds

/-- The script as a machine whose state is what remains of it, with the tree. -/
def machine : Machine (FileScript κ α β × FileTree κ α) (FileEvent α) Unit :=
  ⟨fun (script, tree) event => (script.step tree event).map (·, [])⟩

private theorem run_proceed {script next : FileScript κ α β} {tree after : FileTree κ α}
    (stepped : script.step tree .proceed = some (next, after)) (same : script.run tree = next.run after)
    (later : ∃ count outputs, machine.run (next, after) (List.replicate count .proceed) =
      some ((.done (next.run after).1, (next.run after).2), outputs)) :
    ∃ count outputs, machine.run (script, tree) (List.replicate count .proceed) =
      some ((.done (script.run tree).1, (script.run tree).2), outputs) := by
  obtain ⟨count, outputs, ran⟩ := later
  refine ⟨count + 1, outputs, ?_⟩
  rw [List.replicate_succ, machine.run_cons]
  refine ⟨(next, after), [], outputs, ?_, same ▸ ran, rfl⟩
  exact Option.map_eq_some_iff.mpr ⟨_, stepped, rfl⟩

/-- To the end without a fault is a run of the machine. -/
theorem run_machine (script : FileScript κ α β) (tree : FileTree κ α) :
    ∃ count outputs, machine.run (script, tree) (List.replicate count .proceed) =
      some ((.done (script.run tree).1, (script.run tree).2), outputs) := by
  induction script generalizing tree with
  | done value => exact ⟨0, [], rfl⟩
  | exists_ path next ih => exact run_proceed rfl rfl (ih _ tree)
  | read path next ih => exact run_proceed rfl rfl (ih _ tree)
  | createDirAll path next ih =>
    cases created : tree.createDirAll path with
    | ok made => exact run_proceed (by simp only [step, created]; rfl) (by simp only [run, created]) (ih _ made)
    | error errno => exact run_proceed (by simp only [step, created]; rfl) (by simp only [run, created]) (ih _ tree)
  | write path content next ih =>
    cases created : tree.create path content with
    | ok written => exact run_proceed (by simp only [step, created]; rfl) (by simp only [run, created]) (ih _ written)
    | error errno => exact run_proceed (by simp only [step, created]; rfl) (by simp only [run, created]) (ih _ tree)
  | rename source target next ih =>
    cases renamed : tree.move source target with
    | ok moved => exact run_proceed (by simp only [step, renamed]; rfl) (by simp only [run, renamed]) (ih _ moved)
    | error errno => exact run_proceed (by simp only [step, renamed]; rfl) (by simp only [run, renamed]) (ih _ tree)

end FileScript

end Coral.Library
