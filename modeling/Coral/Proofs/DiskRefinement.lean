import Coral.Proofs.BackendRefinement
import Coral.Proofs.DiskCalls
import Coral.Proofs.Lockstep

/-! The disk with its temporary files against the store in memory. They answer alike as long
as the walk passes over no key, no temporary file is in the way of a key, and the system takes
the path of each. -/

namespace Coral.Proofs
open Coral.Library

section Linux

variable {rootBytes : Nat} {path : List Name} {tree : FileTree Name Content}

/-- Linux takes the path wherever it is. -/
structure Takes (rootBytes : Nat) (path : List Name) : Prop where
  plain : ∀ name ∈ path, '\x00' ∉ name.text.toList
  short : ∀ name ∈ path, name.text.utf8ByteSize ≤ NAME_MAX
  fits : pathBytes rootBytes path < PATH_MAX

theorem Takes.linux (takes : Takes rootBytes path) : linux rootBytes tree path = none := by
  have plain : (path.any fun name => name.text.toList.contains '\x00') = false := by
    rw [List.any_eq_false]
    intro name member
    simpa using takes.plain name member
  have short : (path.takeWhile fun name => name.text.utf8ByteSize ≤ NAME_MAX) = path := by
    rw [List.takeWhile_eq_self_iff]
    intro name member
    simpa using takes.short name member
  unfold Coral.linux
  rw [plain, if_neg (by simp), if_neg (Nat.not_le.mpr takes.fits), short]
  simp

/-- A path that is taken where its directory is there is taken everywhere. -/
theorem takes_of_linux (taken : linux rootBytes tree path = none) (parent : tree.shape path.dropLast = some .dir) :
    Takes rootBytes path := by
  unfold linux at taken
  split at taken
  · cases taken
  · rename_i plain
    split at taken
    · cases taken
    · rename_i fits
      refine ⟨?_, ?_, Nat.not_le.mp fits⟩
      · intro name member nul
        apply plain
        rw [List.any_eq_true]
        exact ⟨name, member, by simpa using nul⟩
      · by_contra long
        push Not at long
        have some_long : path.takeWhile (fun name => name.text.utf8ByteSize ≤ NAME_MAX) ≠ path := by
          intro whole
          obtain ⟨name, member, exceeds⟩ := long
          have shown := List.takeWhile_eq_self_iff.mp whole name member
          simp only [decide_eq_true_eq] at shown
          omega
        have dir : tree.shape (path.takeWhile fun name => name.text.utf8ByteSize ≤ NAME_MAX) = some .dir := by
          obtain ⟨rest, whole⟩ := @List.takeWhile_prefix _ path fun name => name.text.utf8ByteSize ≤ NAME_MAX
          have more : rest ≠ [] := by
            rintro rfl
            exact some_long ((List.append_nil _).symm.trans whole)
          rw [← whole, List.dropLast_append_of_ne_nil more, FileTree.shape_dir_iff] at parent
          rw [FileTree.shape_dir_iff]
          by_cases last : rest.dropLast = []
          · rw [last, List.append_nil] at parent
            exact parent
          · exact tree.lookup_above parent last
        simp only at taken
        rw [if_pos ⟨some_long, dir⟩] at taken
        cases taken

end Linux

section Keyspaces

variable {space : Keyspace} {disk stored : LocalStorage} {memory : MemoryStorage} {key : String}

/-- No temporary file of a put is at a key, or above one. -/
def Keyspace.Beside (space : Keyspace) (pid : UInt32) : Prop :=
  ∀ key other, space.keys key → space.keys other → ∀ counter, ¬ tmpPathFor (keyPath key) pid counter <+: keyPath other

/-- The system takes every key and every temporary file of a put. -/
def Keyspace.Taken (space : Keyspace) (pid : UInt32) (refusal : FileTree Name Content → List Name → Option StorageError) :
    Prop :=
  ∀ key, space.keys key → ∀ tree, refusal tree (keyPath key) = none ∧
    ∀ counter, refusal tree (tmpPathFor (keyPath key) pid counter) = none

/-- The part of it that is one key. -/
def Keyspace.only (space : Keyspace) (key : String) (used : space.keys key) : Keyspace where
  keys other := other = key
  scopes _ := False
  plain := by
    rintro _ rfl
    exact space.plain _ used
  apart := by
    rintro _ _ rfl rfl _
    rfl

theorem Mirrors.congr (mirrors : Mirrors space stored memory)
    (same : ∀ path, disk.tree.lookup path = stored.tree.lookup path) : Mirrors space disk memory := by
  have shape : ∀ path, disk.tree.shape path = stored.tree.shape path :=
    fun path => congrArg (Option.map Entry.kind) (same path)
  refine ⟨?_, mirrors.stored, ?_, ?_⟩
  · intro key used
    rw [← mirrors.same key used]
    exact congrArg (Option.bind · Entry.content?) (same _)
  · exact fun path file => mirrors.files path ((shape path).symm.trans file)
  · exact fun path dir => mirrors.dirs path ((shape path).symm.trans dir)

/-- Keys that no call went to yet may join. -/
theorem Mirrors.mono {part : Keyspace} (mirrors : Mirrors part disk memory)
    (within : ∀ key, part.keys key → space.keys key) : Mirrors space disk memory where
  same key used := by
    by_cases member : part.keys key
    · exact mirrors.same key member
    · have bare : disk.tree.read (keyPath key) = none := by
        rw [FileTree.read_none_iff]
        intro file
        have there := mirrors.files _ file
        rw [Keyspace.joined used] at there
        exact member there
      have absent : memory.inner.lookup key = none := by
        rw [AList.lookup_eq_none]
        exact fun there => member (mirrors.stored key (AList.mem_keys.mp there))
      rw [bare, absent]
  stored key member := within key (mirrors.stored key member)
  files path file := within _ (mirrors.files path file)
  dirs path dir := (mirrors.dirs path dir).imp_right fun ⟨key, used, above⟩ => ⟨key, within key used, above⟩

/-- Nothing is at a path that is above no key. -/
theorem Mirrors.vacant (mirrors : Mirrors space disk memory) {path : List Name} (proper : path ≠ [])
    (apart : ∀ key, space.keys key → ¬ path <+: keyPath key) : disk.tree.lookup path = none := by
  rw [← FileTree.shape_none_iff]
  cases kind : disk.tree.shape path with
  | none => rfl
  | some kind_ =>
    cases kind_ with
    | file =>
      refine (apart _ (mirrors.files path kind) ?_).elim
      rw [keyPath_joinPath]
    | dir =>
      rcases mirrors.dirs path kind with root | ⟨key, used, above, -⟩
      · exact (proper root).elim
      · exact (apart key used above).elim

end Keyspaces

/-- The disk of a process, under a system, mirrors the memory. -/
structure Reflects (space : Keyspace) (pid : UInt32) (refusal : FileTree Name Content → List Name → Option StorageError)
    (disk : LocalDisk) (memory : MemoryStorage) : Prop where
  mirrors : Mirrors space disk.store memory
  process : disk.pid = pid
  system : disk.refusal = refusal

section Reflects

variable {space : Keyspace} {pid : UInt32} {refusal : FileTree Name Content → List Name → Option StorageError}
  {disk after : LocalDisk} {memory : MemoryStorage} {key : String} {value : Content}

theorem tmpPathFor_proper {path : List Name} {pid : UInt32} {counter : UInt64} (proper : path ≠ []) :
    tmpPathFor path pid counter ≠ [] := by
  intro root
  have length := congrArg List.length root
  rw [length_tmpPathFor, List.length_nil] at length
  exact proper (List.length_eq_zero_iff.mp length)

/-- A put over a vacant temporary path does on the disk what it does in memory. -/
theorem Mirrors.through (mirrors : Mirrors space disk.store memory) (used : space.keys key)
    (vacant : disk.tree.lookup (disk.tmpPath (keyPath key)) = none) (through : PutThrough disk (keyPath key) value after) :
    Mirrors space after.store ⟨memory.inner.insert key value⟩ := by
  obtain ⟨stored, written, same⟩ := through.store (mirrors.clear used) vacant
  obtain ⟨stored', written', next⟩ := mirrors.put used value
  rw [written] at written'
  cases written'
  exact next.congr same

theorem Reflects.taken (reflects : Reflects space pid refusal disk memory) (taken : space.Taken pid refusal)
    (used : space.keys key) (tree : FileTree Name Content) : disk.refusal tree (keyPath key) = none := by
  rw [reflects.system]
  exact (taken key used tree).1

theorem Reflects.put (reflects : Reflects space pid refusal disk memory) (beside : space.Beside pid)
    (taken : space.Taken pid refusal) (used : space.keys key) (value : Content) :
    ∃ after, AgentStorage.put disk key value = .ok after ∧ Reflects space pid refusal after ⟨memory.inner.insert key value⟩ := by
  obtain ⟨mirrors, process, system⟩ := reflects
  have vacant : disk.tree.lookup (disk.tmpPath (keyPath key)) = none := by
    refine mirrors.vacant (tmpPathFor_proper (Keyspace.nonempty used)) fun other used' => ?_
    unfold LocalDisk.tmpPath
    rw [process]
    exact beside key other used used' _
  have passes : passable disk.tree.shape disk.pid disk.tmpCounter (keyPath key) = true := by
    have free : disk.tree.shape (tmpPathFor (keyPath key) disk.pid disk.tmpCounter) = none :=
      FileTree.shape_none_iff.mpr vacant
    unfold passable
    rw [free, show disk.tree.shape.clear (keyPath key) = true from mirrors.clear used]
    rfl
  have taken' : ∀ tree, disk.refusal tree (disk.tmpPath (keyPath key)) = none := by
    intro tree
    unfold LocalDisk.tmpPath
    rw [process, system]
    exact (taken key used tree).2 _
  obtain ⟨after, written, through⟩ := put_passable taken' passes value
  exact ⟨after, written, mirrors.through used vacant through, through.pid.trans process, through.refusal.trans system⟩

theorem Reflects.putIfAbsent (reflects : Reflects space pid refusal disk memory) (taken : space.Taken pid refusal)
    (used : space.keys key) (value : Content) :
    ∃ after, AgentStorage.putIfAbsent disk key value =
        .ok (if (memory.inner.lookup key).isSome then .existed else .created, after) ∧
      Reflects space pid refusal after
        (if (memory.inner.lookup key).isSome then memory else ⟨memory.inner.insert key value⟩) := by
  obtain ⟨after, next, answered⟩ := reflects.mirrors.putIfAbsent used value
  refine ⟨{ disk with tree := after.tree }, ?_, next, reflects.process, reflects.system⟩
  refine (putIfAbsent_taken (reflects.taken taken used) value).trans ?_
  rw [show disk.store.putIfAbsent key value = _ from answered]
  rfl

theorem Reflects.delete (reflects : Reflects space pid refusal disk memory) (taken : space.Taken pid refusal)
    (used : space.keys key) :
    ∃ after, AgentStorage.delete disk key = .ok after ∧ Reflects space pid refusal after ⟨memory.inner.erase key⟩ := by
  obtain ⟨after, deleted, next⟩ := reflects.mirrors.delete used
  refine ⟨{ disk with tree := after.tree }, ?_, next, reflects.process, reflects.system⟩
  refine (delete_taken (reflects.taken taken used)).trans ?_
  rw [show disk.store.delete key = .ok after from deleted]
  rfl

theorem Reflects.get (reflects : Reflects space pid refusal disk memory) (taken : space.Taken pid refusal)
    (used : space.keys key) : AgentStorage.get disk key = .ok (memory.inner.lookup key) :=
  (get_taken (reflects.taken taken used)).trans (reflects.mirrors.get used)

theorem Reflects.list (reflects : Reflects space pid refusal disk memory) {scope : Scope} (listed : space.scopes scope)
    (shown : space.Shown) (after : Option String) (limit : Nat) :
    AgentStorage.list disk scope.text after limit = AgentStorage.list memory scope.text after limit :=
  reflects.mirrors.list listed shown after limit

/-- Where the listings start. -/
def Keyspace.starts (space : Keyspace) (start : String) : Prop := ∃ scope, space.scopes scope ∧ scope.text = start

/-- The disk and the memory answer alike where the walk shows every key, no temporary file is in
the way of one, and the system takes them. -/
theorem Reflects.lockstep (shown : space.Shown) (beside : space.Beside pid) (taken : space.Taken pid refusal) :
    Lockstep (Reflects space pid refusal) space.keys space.keys space.starts where
  reads_keys used := used
  get reflects used := reflects.get taken used
  list reflects used := by
    obtain ⟨scope, listed, rfl⟩ := used
    exact reflects.list listed shown _ _
  put {disk memory key value} reflects used := by
    obtain ⟨after, written, next⟩ := reflects.put beside taken used value
    rw [written]
    exact next
  putIfAbsent {disk memory key value} reflects used := by
    obtain ⟨after, answered, next⟩ := reflects.putIfAbsent taken used value
    have memory_answer : AgentStorage.putIfAbsent memory key value =
        if (memory.inner.lookup key).isSome then .ok (.existed, memory)
        else .ok (.created, ⟨memory.inner.insert key value⟩) := rfl
    rw [answered, memory_answer]
    split
    · rename_i present
      rw [if_pos present] at next
      exact ⟨rfl, next⟩
    · rename_i absent
      rw [if_neg absent] at next
      exact ⟨rfl, next⟩
  delete {disk memory key} reflects used := by
    obtain ⟨after, deleted, next⟩ := reflects.delete taken used
    rw [deleted]
    exact next
  listed {disk memory start after limit page} reflects used got key member := by
    obtain ⟨scope, listed, rfl⟩ := used
    rw [reflects.list listed shown] at got
    obtain rfl := Except.ok.inj got
    exact reflects.mirrors.stored key (List.mem_of_mem_filter (ListPage.mem_keys_of member))

end Reflects

section Calls

variable {σ τ : Type} [AgentStorage σ] [AgentStorage τ] {rel : σ → τ → Prop} {space : Keyspace} {first : σ} {second : τ}

/-- One call of two stores that are alike. -/
theorem Lockstep.storeCall (lockstep : Lockstep rel space.keys space.keys space.starts) {call : StoreCall}
    (uses : space.Uses call) (alike : rel first second) :
    (answerCall first call).1 = (answerCall second call).1 ∧ rel (answerCall first call).2 (answerCall second call).2 := by
  cases call with
  | put key value =>
    rcases (@Lockstep.put _ _ _ _ _ _ _ _ lockstep _ _ key value alike uses).cases with ⟨error, one, two⟩ |
      ⟨_, _, one, two, next⟩
    · simp only [answerCall, one, two]
      exact ⟨trivial, alike⟩
    · simp only [answerCall, one, two]
      exact ⟨trivial, next⟩
  | putIfAbsent key value =>
    rcases (@Lockstep.putIfAbsent _ _ _ _ _ _ _ _ lockstep _ _ key value alike uses).cases with ⟨error, one, two⟩ |
      ⟨_, _, one, two, ended⟩
    · simp only [answerCall, one, two]
      exact ⟨trivial, alike⟩
    · obtain ⟨outcome, _, _, rfl, rfl, next⟩ := ended.cases
      simp only [answerCall, one, two]
      exact ⟨trivial, next⟩
  | get key =>
    simp only [answerCall, lockstep.get alike uses]
    cases AgentStorage.get second key <;> exact ⟨rfl, alike⟩
  | getMany keys =>
    simp only [answerCall, lockstep.getMany alike uses]
    cases AgentStorage.getMany second keys <;> exact ⟨rfl, alike⟩
  | delete key =>
    rcases (@Lockstep.delete _ _ _ _ _ _ _ _ lockstep _ _ key alike uses).cases with ⟨error, one, two⟩ |
      ⟨_, _, one, two, next⟩
    · simp only [answerCall, one, two]
      exact ⟨trivial, alike⟩
    · simp only [answerCall, one, two]
      exact ⟨trivial, next⟩
  | list start after limit =>
    obtain ⟨scope, listed, rfl⟩ := uses
    simp only [answerCall, lockstep.list alike ⟨scope, listed, rfl⟩]
    cases AgentStorage.list second scope.text after limit <;> exact ⟨rfl, alike⟩

theorem Lockstep.storeRun (lockstep : Lockstep rel space.keys space.keys space.starts) {calls : List StoreCall}
    (uses : ∀ call ∈ calls, space.Uses call) (alike : rel first second) :
    ((storeCalls σ).run first calls).map (·.2) = ((storeCalls τ).run second calls).map (·.2) := by
  induction calls generalizing first second with
  | nil => rfl
  | cons call calls ih =>
    rw [List.forall_mem_cons] at uses
    obtain ⟨same, next⟩ := lockstep.storeCall uses.1 alike
    have rest := ih uses.2 next
    have unrolled : ∀ {υ : Type} [AgentStorage υ] (storage : υ), ((storeCalls υ).run storage (call :: calls)).map (·.2) =
        (((storeCalls υ).run (answerCall storage call).2 calls).map (·.2)).map ((answerCall storage call).1 :: ·) := by
      intro υ _ storage
      change (((storeCalls υ).run (answerCall storage call).2 calls).bind _).map _ = _
      cases (storeCalls υ).run (answerCall storage call).2 calls <;> rfl
    rw [unrolled, unrolled, rest, same]

end Calls

section Differences

variable {rootBytes : Nat} {pid : UInt32} {space : Keyspace} {disk : LocalDisk} {memory : MemoryStorage} {key : String}

/-- `LocalStorage::new` on an empty directory. -/
def newDisk (rootBytes : Nat) (pid : UInt32) : LocalDisk := ⟨.empty, pid, 0, linux rootBytes⟩

variable (rootBytes pid space) in
/-- All sequences of calls are answered by the two stores alike. -/
def AnswersAsMemory : Prop :=
  ∀ calls : List StoreCall, (∀ call ∈ calls, space.Uses call) →
    ((storeCalls LocalDisk).run (newDisk rootBytes pid) calls).map (·.2) = ((storeCalls MemoryStorage).run ⟨∅⟩ calls).map (·.2)

variable (rootBytes pid space disk memory) in
/-- Some calls lead to these two stores. -/
def Led : Prop :=
  ∃ calls answers answers', (∀ call ∈ calls, space.Uses call) ∧
    (storeCalls LocalDisk).run (newDisk rootBytes pid) calls = some (disk, answers) ∧
    (storeCalls MemoryStorage).run ⟨∅⟩ calls = some (memory, answers')

theorem Led.start : Led rootBytes pid space (newDisk rootBytes pid) ⟨∅⟩ := ⟨[], [], [], by simp, rfl, rfl⟩

theorem Led.next (agree : AnswersAsMemory rootBytes pid space) (led : Led rootBytes pid space disk memory) {call : StoreCall}
    (uses : space.Uses call) :
    (answerCall disk call).1 = (answerCall memory call).1 ∧
      Led rootBytes pid space (answerCall disk call).2 (answerCall memory call).2 := by
  obtain ⟨calls, answers, answers', used, ran, ran'⟩ := led
  have uses' : ∀ other ∈ calls ++ [call], space.Uses other := by
    intro other member
    rcases List.mem_append.mp member with earlier | last
    · exact used other earlier
    · exact List.mem_singleton.mp last ▸ uses
  have one : (storeCalls LocalDisk).run (newDisk rootBytes pid) (calls ++ [call]) =
      some ((answerCall disk call).2, answers ++ [(answerCall disk call).1]) :=
    (storeCalls LocalDisk).run_snoc.mpr ⟨disk, answers, _, ran, rfl, rfl⟩
  have two : (storeCalls MemoryStorage).run ⟨∅⟩ (calls ++ [call]) =
      some ((answerCall memory call).2, answers' ++ [(answerCall memory call).1]) :=
    (storeCalls MemoryStorage).run_snoc.mpr ⟨memory, answers', _, ran', rfl, rfl⟩
  refine ⟨?_, _, _, _, uses', one, two⟩
  have same := agree _ uses'
  rw [one, two, Option.map_some, Option.map_some, Option.some.injEq] at same
  exact List.singleton_inj.mp (List.append_inj_right' same rfl)

/-- A put that memory answers goes through on the disk. -/
theorem Led.put (agree : AnswersAsMemory rootBytes pid space) (led : Led rootBytes pid space disk memory)
    (used : space.keys key) (value : Content) :
    ∃ after, disk.put key value = .ok after ∧ Led rootBytes pid space after ⟨memory.inner.insert key value⟩ := by
  obtain ⟨same, next⟩ := @Led.next _ _ _ _ _ agree led (.put key value) used
  have memory_put : AgentStorage.put memory key value = .ok ⟨memory.inner.insert key value⟩ := rfl
  simp only [answerCall, memory_put] at same next
  cases written : AgentStorage.put disk key value with
  | error error =>
    rw [written] at same
    cases same
  | ok after =>
    rw [written] at next
    exact ⟨after, written, next⟩

/-- What a put that goes through tells of the system. -/
theorem takes_of_put {after : LocalDisk} {value : Content} (system : disk.refusal = linux rootBytes)
    (written : disk.put key value = .ok after) : Takes rootBytes (disk.tmpPath (keyPath key)) := by
  obtain ⟨-, ⟨made, created, taken⟩, -⟩ := through_of_put written
  rw [system] at taken
  apply takes_of_linux taken
  have beside : (disk.tmpPath (keyPath key)).dropLast = (keyPath key).dropLast := dropLast_tmpPathFor
  rw [beside, FileTree.shape_dir_iff, (FileTree.createDirAll_ok created).2, if_pos (List.prefix_refl _)]

/-- After so many puts of one key, the next temporary file has that number. -/
theorem Led.puts (agree : AnswersAsMemory rootBytes pid space) (used : space.keys key) (count : Nat) :
    ∃ disk memory, Led rootBytes pid space disk memory ∧ Mirrors (space.only key used) disk.store memory ∧
      disk.pid = pid ∧ disk.refusal = linux rootBytes ∧ disk.tmpCounter = UInt64.ofNat count := by
  induction count with
  | zero => exact ⟨_, _, .start, Mirrors.empty _, rfl, rfl, rfl⟩
  | succ count ih =>
    obtain ⟨disk, memory, led, mirrors, process, system, counted⟩ := ih
    obtain ⟨after, written, next⟩ := led.put agree used (.text "")
    obtain ⟨-, -, through⟩ := through_of_put written
    have proper := Keyspace.nonempty used
    have vacant : disk.tree.lookup (disk.tmpPath (keyPath key)) = none := by
      refine mirrors.vacant (tmpPathFor_proper proper) ?_
      intro other same above
      rw [show other = key from same] at above
      exact tmpPathFor_ne proper (above.eq_of_length length_tmpPathFor)
    refine ⟨after, _, next, mirrors.through rfl vacant through, ?_, ?_, ?_⟩
    · rw [through.pid, process]
    · rw [through.refusal, system]
    · rw [through.counter, counted, UInt64.ofNat_add]
      rfl

/-- The system takes the temporary file of every put. -/
theorem takes_of_agree (agree : AnswersAsMemory rootBytes pid space) (used : space.keys key) (counter : UInt64) :
    Takes rootBytes (tmpPathFor (keyPath key) pid counter) := by
  obtain ⟨disk, memory, led, -, process, system, counted⟩ := Led.puts agree used counter.toNat
  obtain ⟨after, written, -⟩ := led.put agree used (.text "")
  have takes := takes_of_put system written
  unfold LocalDisk.tmpPath at takes
  rwa [process, counted, UInt64.ofNat_toNat] at takes

theorem Takes.of_tmp {path : List Name} {counter : UInt64} (takes : Takes rootBytes (tmpPathFor path pid counter)) :
    Takes rootBytes path := by
  rcases List.eq_nil_or_concat path with rfl | ⟨dir, name, rfl⟩
  · exact takes
  · rw [List.concat_eq_append] at takes ⊢
    rw [tmpPathFor_concat] at takes
    have longer : name.text.utf8ByteSize ≤ (tmpName name pid.toNat counter.toNat).text.utf8ByteSize := by
      unfold tmpName
      rw [String.utf8ByteSize_append]
      exact Nat.le_add_right _ _
    obtain ⟨plain, short, fits⟩ := takes
    simp only [List.forall_mem_append, List.forall_mem_singleton] at plain short
    refine ⟨?_, ?_, Nat.lt_of_le_of_lt ?_ fits⟩
    · simp only [List.forall_mem_append, List.forall_mem_singleton]
      refine ⟨plain.1, fun nul => plain.2 ?_⟩
      unfold tmpName
      rw [String.toList_append]
      exact List.mem_append_left _ nul
    · simp only [List.forall_mem_append, List.forall_mem_singleton]
      exact ⟨short.1, longer.trans short.2⟩
    · unfold pathBytes
      simp only [List.map_append, List.map_cons, List.map_nil, List.sum_append, List.sum_cons, List.sum_nil]
      omega

theorem taken_of_agree (agree : AnswersAsMemory rootBytes pid space) (system : disk.refusal = linux rootBytes)
    (used : space.keys key) (tree : FileTree Name Content) : disk.refusal tree (keyPath key) = none := by
  rw [system]
  exact (takes_of_agree agree used 0).of_tmp.linux

theorem Led.get (agree : AnswersAsMemory rootBytes pid space) (led : Led rootBytes pid space disk memory)
    (used : space.keys key) : AgentStorage.get disk key = .ok (memory.inner.lookup key) := by
  obtain ⟨same, -⟩ := @Led.next _ _ _ _ _ agree led (.get key) used
  have memory_get : AgentStorage.get memory key = .ok (memory.inner.lookup key) := rfl
  simp only [answerCall, memory_get] at same
  cases got : AgentStorage.get disk key with
  | error error =>
    rw [got] at same
    cases same
  | ok found =>
    rw [got] at same
    exact congrArg Except.ok (StoreAnswer.found.inj same)

/-- A key can be created without a temporary file. -/
theorem Led.creates (agree : AnswersAsMemory rootBytes pid space) (led : Led rootBytes pid space disk memory)
    (mirrors : Mirrors space disk.store memory) (system : disk.refusal = linux rootBytes) (used : space.keys key)
    (absent : memory.inner.lookup key = none) (value : Content) :
    ∃ tree, Led rootBytes pid space { disk with tree } ⟨memory.inner.insert key value⟩ ∧
      Mirrors space ⟨tree⟩ ⟨memory.inner.insert key value⟩ := by
  obtain ⟨-, next⟩ := @Led.next _ _ _ _ _ agree led (.putIfAbsent key value) used
  obtain ⟨after, mirrors', answered⟩ := mirrors.putIfAbsent used value
  rw [absent] at mirrors' answered
  have disk_answer : AgentStorage.putIfAbsent disk key value = .ok (.created, { disk with tree := after.tree }) := by
    refine (putIfAbsent_taken (taken_of_agree agree system used) _).trans ?_
    rw [show disk.store.putIfAbsent key value = _ from answered]
    rfl
  have memory_answer : AgentStorage.putIfAbsent memory key value = .ok (.created, ⟨memory.inner.insert key value⟩) := by
    change (if (memory.inner.lookup key).isSome then _ else _) = _
    rw [absent]
    rfl
  simp only [answerCall, disk_answer, memory_answer] at next
  exact ⟨after.tree, next, mirrors'⟩

/-- A put moves its temporary file away, and only a file can have been there. -/
theorem tmpPath_apart (agree : AnswersAsMemory rootBytes pid space) (led : Led rootBytes pid space disk memory)
    (mirrors : Mirrors space disk.store memory) (system : disk.refusal = linux rootBytes) (used : space.keys key) {other : String}
    (used' : space.keys other) (apart : other ≠ key) (present : (memory.inner.lookup other).isSome = true) :
    ¬ disk.tmpPath (keyPath key) <+: keyPath other := by
  intro above
  obtain ⟨final, written, last⟩ := led.put agree used (.text "")
  obtain ⟨passes, -, through⟩ := through_of_put written
  by_cases here : disk.tmpPath (keyPath key) = keyPath other
  · have plain : AgentStorage.get final other = AgentStorage.get final.store other :=
      get_taken fun tree => taken_of_agree agree (through.refusal.trans system) used' tree
    have got := last.get agree used'
    rw [plain, AList.lookup_insert_ne apart] at got
    have gone : final.tree.read (keyPath other) = none := by
      unfold FileTree.read
      rw [through.lookup, if_pos here.symm]
      rfl
    have read : memory.inner.lookup other = final.tree.read (keyPath other) := LawfulStorage.get_ok final.store other _ got
    rw [read, gone] at present
    cases present
  · obtain ⟨rest, whole⟩ := above
    have more : rest ≠ [] := by
      rintro rfl
      exact here ((List.append_nil _).symm.trans whole)
    have file : disk.tree.shape (keyPath other) = some .file := by
      rw [← FileTree.isSome_read, show disk.tree.read (keyPath other) = _ from mirrors.same other used']
      exact present
    obtain ⟨content, found⟩ := FileTree.shape_file_iff.mp file
    rw [← whole] at found
    have dir := disk.tree.lookup_above found more
    obtain ⟨-, free⟩ := Bool.and_eq_true_iff.mp passes
    exact of_decide_eq_true free (FileTree.shape_dir_iff.mpr dir)

/-- No temporary file of a put is at a key, or above one. The other key is created before the put
with the number in question, which takes no number itself. -/
theorem beside_of_agree (agree : AnswersAsMemory rootBytes pid space) : space.Beside pid := by
  intro key other used used' counter above
  obtain ⟨disk, memory, led, alone, process, system, counted⟩ := Led.puts agree used counter.toNat
  have mirrors : Mirrors space disk.store memory := alone.mono fun _ same => by
    rw [show _ = key from same]
    exact used
  have apart : other ≠ key := by
    rintro rfl
    exact tmpPathFor_ne (Keyspace.nonempty used') (above.eq_of_length length_tmpPathFor)
  have absent : memory.inner.lookup other = none := by
    rw [AList.lookup_eq_none]
    exact fun there => apart (alone.stored other (AList.mem_keys.mp there))
  obtain ⟨tree, led', mirrors'⟩ := led.creates agree mirrors system used' absent (.text "")
  have present : ((memory.inner.insert other (.text "")).lookup other).isSome = true := by
    rw [AList.lookup_insert]
    rfl
  refine tmpPath_apart agree led' mirrors' system used used' apart present ?_
  unfold LocalDisk.tmpPath
  rwa [process, counted, UInt64.ofNat_toNat]

theorem Led.list (agree : AnswersAsMemory rootBytes pid space) (led : Led rootBytes pid space disk memory) {scope : Scope}
    (listed : space.scopes scope) (after : Option String) (limit : Nat) :
    AgentStorage.list disk scope.text after limit = AgentStorage.list memory scope.text after limit := by
  obtain ⟨same, -⟩ := @Led.next _ _ _ _ _ agree led (.list scope.text after limit) ⟨scope, listed, rfl⟩
  have memory_list : AgentStorage.list memory scope.text after limit =
      .ok (.of (memory.inner.keys.filter fun key => startsWithText key scope.text) after limit) := rfl
  rw [memory_list]
  simp only [answerCall, memory_list] at same
  cases found : AgentStorage.list disk scope.text after limit with
  | error error =>
    rw [found] at same
    cases same
  | ok page =>
    rw [found] at same
    exact congrArg Except.ok (StoreAnswer.page.inj same)

/-- A key that is put first is there alone, and is listed as in memory. -/
theorem put_alone (agree : AnswersAsMemory rootBytes pid space) (used : space.keys key) :
    ∃ after : LocalDisk, Mirrors space after.store ⟨(∅ : AList fun _ : String => Content).insert key (.text "")⟩ ∧
      ∀ scope, space.scopes scope → after.store.list scope.text none 2 =
        .ok (.of (((∅ : AList fun _ : String => Content).insert key (.text "")).keys.filter fun key =>
          startsWithText key scope.text) none 2) := by
  obtain ⟨after, written, led⟩ := Led.start.put agree used (.text "")
  obtain ⟨-, -, through⟩ := through_of_put written
  have vacant : (newDisk rootBytes pid).tree.lookup ((newDisk rootBytes pid).tmpPath (keyPath key)) = none :=
    (FileTree.lookup_empty _).trans (if_neg (tmpPathFor_proper (Keyspace.nonempty used)))
  have mirrors : Mirrors space (newDisk rootBytes pid).store ⟨∅⟩ := Mirrors.empty space
  exact ⟨after, mirrors.through used vacant through, fun scope listed => led.list agree listed none 2⟩

/-- The walk passes over no key. -/
theorem shown_of_agree (agree : AnswersAsMemory rootBytes pid space) : space.Shown := by
  intro scope listed
  have apart : ¬ space.keys (joinPath scope.dir) := by
    intro used
    obtain ⟨after, mirrors, same⟩ := put_alone agree used
    have file : after.store.tree.shape (LocalStorage.scanRoot scope.text) = some .file := by
      have read := mirrors.same _ used
      rw [lookup_insert, if_pos rfl, keyPath_joinPath] at read
      rw [scanRoot_text, ← FileTree.isSome_read, read]
      rfl
    have told := same scope listed
    rw [list_of_file file] at told
    cases told
  refine ⟨apart, ?_⟩
  intro key used matching
  obtain ⟨after, mirrors, same⟩ := put_alone agree used
  have told := same scope listed
  rw [← walked_iff (dir_above matching)]
  have dir : after.store.tree.shape (LocalStorage.scanRoot scope.text) ≠ some .file := by
    rw [scanRoot_text]
    exact fun file => apart (mirrors.files _ file)
  rw [list_of_keys dir] at told
  have among : key ∈ (ListPage.of (keysFrom after.store scope.text) none 2).keys := by
    rw [Except.ok.inj told]
    apply ListPage.mem_of_short
    · unfold ListPage.of
      simp only [List.length_take, List.length_insertionSort]
      have one : (((∅ : AList fun _ : String => Content).insert key (.text "")).keys.filter fun key =>
          startsWithText key scope.text).length ≤ 1 := List.length_filter_le _ _
      omega
    · exact List.mem_filter.mpr ⟨List.mem_cons_self, matching⟩
  obtain ⟨path, joined, -, walked, -⟩ := mem_keysFrom.mp (ListPage.mem_keys_of among)
  rw [joined, keyPath_joinPath, ← scanRoot_text]
  exact walked

/-- Over a set of keys and prefixes, all calls are answered as in memory exactly when the walk
passes over no key, no temporary file of a put comes to be at a key or above one, and the system
takes the path of each such file. -/
theorem local_answers_as_memory_iff (rootBytes : Nat) (pid : UInt32) (space : Keyspace) :
    AnswersAsMemory rootBytes pid space ↔ space.Shown ∧ space.Beside pid ∧
      ∀ key, space.keys key → ∀ counter, Takes rootBytes (tmpPathFor (keyPath key) pid counter) := by
  constructor
  · exact fun agree => ⟨shown_of_agree agree, beside_of_agree agree, fun key used => takes_of_agree agree used⟩
  · rintro ⟨shown, beside, takes⟩ calls uses
    have taken : space.Taken pid (linux rootBytes) := by
      intro key used tree
      exact ⟨(takes key used 0).of_tmp.linux, fun counter => (takes key used counter).linux⟩
    exact (Reflects.lockstep shown beside taken).storeRun uses ⟨Mirrors.empty space, rfl, rfl⟩

/-- A note whose name looks like a temporary file's is read, and never listed. -/
theorem note_passed_over :
    ¬ ∀ (rootBytes : Nat) (pid : UInt32) (space : Keyspace), AnswersAsMemory rootBytes pid space := by
  intro agree
  let path : List Name := [⟨"notes", by decide⟩, ⟨"a.tmp.b", by decide⟩]
  let notes : Scope := ⟨[⟨"notes", by decide⟩], "", by decide⟩
  let space : Keyspace :=
    { keys := fun key => key = joinPath path
      scopes := fun scope => scope = notes
      plain := fun key used => ⟨path, by decide, used⟩
      apart := fun key other used used' _ => used.trans used'.symm }
  let calls : List StoreCall := [.put (joinPath path) (.text ""), .get (joinPath path), .list notes.text none usizeMax]
  have same := agree 5 7 space calls (by
    intro call member
    simp only [calls, List.mem_cons, List.not_mem_nil, or_false] at member
    rcases member with rfl | rfl | rfl
    · rfl
    · rfl
    · exact ⟨notes, rfl, rfl⟩)
  have read : ((storeCalls LocalDisk).run (newDisk 5 7) calls).map (·.2) =
      some [.done, .found (some (.text "")), .page ⟨[], none⟩] := by decide +kernel
  have listed : ((storeCalls MemoryStorage).run ⟨∅⟩ calls).map (·.2) =
      some [.done, .found (some (.text "")), .page ⟨["notes/a.tmp.b"], none⟩] := by decide +kernel
  rw [read, listed] at same
  revert same
  decide

end Differences

end Coral.Proofs
