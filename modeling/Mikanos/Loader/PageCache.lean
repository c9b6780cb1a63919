import Mikanos.Fat.Isolation
import Mikanos.Fat.Reading
import Mikanos.Paging.Exact
import Mikanos.Loader.Regions

/-!
# Mapped files

`MapFile` only notes which addresses belong to a file.  The first access to a page
of the mapping faults, and `HandlePageFault` maps a new page and lets `Load` fill
it.  `MapFile` rounds the beginning of the mapping down, so that every page of it
begins inside the file.
-/

namespace Mikanos.Loader

open Mikanos.Memory Mikanos.Fat Mikanos.Paging Mikanos.Paging.AppTask LinearAddress4Level Transition

/-! ## Bytes of a page -/

/-- The word that a byte of a page lies in. -/
def wordOf (i : Nat) : Fin 512 :=
  Fin.ofNat 512 (i / 8)

/-- A byte of a page. -/
def pageByte (page : Frame) (i : Nat) : UInt8 :=
  getByte (page (wordOf i)) (i % 8)

/-- Copy bytes to a page, from byte `i` on. -/
def putBytes (i : Nat) : List UInt8 → Frame → Frame
  | [], page => page
  | b :: rest, page =>
      putBytes (i + 1) rest
        (Function.update page (wordOf i) (setByte (page (wordOf i)) (i % 8) b))

/-- What `Load(page_cache, 4096, offset)` makes of a page. -/
def loadPage (v : Volume) (fd : FileDescriptor) (offset : Nat) (page : Frame) : Frame :=
  match v.load fd 4096 offset with
  | .ok copied => putBytes 0 copied page
  | .error _ => page

theorem byte_eq_pageByte (s : Machine) (frame : Nat) (offset : Fin 4096) :
    s.byte frame offset = pageByte (s.mem frame) offset := by
  have word : wordOf offset.val = ⟨offset.val / 8, by omega⟩ := by
    apply Fin.ext
    exact Nat.mod_eq_of_lt (by omega)
  rw [Machine.byte, pageByte, word]

theorem pageByte_zero (i : Nat) : pageByte (fun _ => 0) i = 0 := by
  simp [pageByte, getByte]

theorem pageByte_update (page : Frame) (b : UInt8) {i j : Nat} (lt : i < 4096) (lt' : j < 4096) :
    pageByte (Function.update page (wordOf i) (setByte (page (wordOf i)) (i % 8) b)) j =
      if j = i then b else pageByte page j := by
  have inside : j % 8 < 8 := Nat.mod_lt _ (by decide)
  rw [pageByte, pageByte]
  by_cases sameWord : j / 8 = i / 8
  · have word : wordOf j = wordOf i := by rw [wordOf, wordOf, sameWord]
    rw [word, Function.update_self]
    by_cases same : j = i
    · rw [if_pos same, same]
      exact getByte_setByte_self _ _ (Nat.mod_lt _ (by decide))
    · rw [if_neg same]
      exact getByte_setByte_of_ne _ _ inside (by omega)
  · have word : wordOf j ≠ wordOf i := by
      intro same
      have values : j / 8 % 512 = i / 8 % 512 := congrArg Fin.val same
      omega
    have ne : j ≠ i := by
      rintro rfl
      exact sameWord rfl
    rw [Function.update_of_ne word, if_neg ne]

/-- The bytes of a page that has been written to. -/
theorem pageByte_putBytes (copied : List UInt8) (page : Frame) (i : Nat)
    (fits : i + copied.length ≤ 4096) {j : Nat} (lt : j < 4096) :
    pageByte (putBytes i copied page) j =
      if i ≤ j ∧ j < i + copied.length then copied.getD (j - i) 0 else pageByte page j := by
  induction copied generalizing i page with
  | nil =>
      rw [putBytes, if_neg]
      rw [List.length_nil]
      omega
  | cons b rest ih =>
      rw [List.length_cons] at fits ⊢
      rw [putBytes, ih _ _ (by omega), pageByte_update page b (by omega) lt]
      by_cases first : j = i
      · subst first
        rw [if_neg (by omega), if_pos rfl, if_pos (by omega), Nat.sub_self]
        rfl
      · by_cases inside : i ≤ j ∧ j < i + (rest.length + 1)
        · rw [if_pos (by omega), if_pos inside, show j - i = j - (i + 1) + 1 by omega]
          rfl
        · rw [if_neg (by omega), if_neg first, if_neg inside]

/-- What `Load` leaves in a new page: the file from the offset on, and zeros beyond its
end. -/
theorem pageByte_loadPage {v : Volume} {fd : FileDescriptor} {l : List Nat} {p : Nat}
    (valid : v.bpb.Valid) (own : v.OwnChain fd.fatEntry l)
    (covers : v.fileSize fd.fatEntry ≤ l.length * v.bytesPerCluster)
    (inside : p < v.fileSize fd.fatEntry) {j : Nat} (lt : j < 4096) :
    pageByte (loadPage v fd p fun _ => 0) j =
      if p + j < v.fileSize fd.fatEntry then v.content l (p + j) else 0 := by
  rw [loadPage, Volume.load_eq valid own covers inside.le]
  dsimp only
  rw [pageByte_putBytes _ _ _ (by rw [Mem.length_bytes]; omega) lt, Mem.length_bytes, Nat.sub_zero,
    pageByte_zero]
  by_cases within : p + j < v.fileSize fd.fatEntry
  · rw [if_pos (by omega), if_pos within, Mem.bytes, List.getD_eq_getElem?_getD, List.getElem?_map,
      List.getElem?_range (by omega)]
    rfl
  · rw [if_neg (by omega), if_neg within]

/-! ## Addresses -/

theorem part_aligned (a : LinearAddress4Level) (k : Nat) : a.aligned.part k = a.part k := by
  rcases k with _ | _ | _ | _ | _ | k <;> rfl

theorem agreeFrom_aligned (a : LinearAddress4Level) : AgreeFrom 1 a a.aligned :=
  fun k _ _ => (part_aligned a k).symm

/-- The page of an address. -/
theorem value_aligned (a : LinearAddress4Level) :
    a.aligned.value + a.offset.val = a.value ∧ 4096 ∣ a.aligned.value := by
  have zero : (a.aligned.offset).val = 0 := rfl
  have rest : a.aligned.value = 2 ^ 12 * (a.page + 2 ^ 9 * (a.dir + 2 ^ 9 * (a.pdp + 2 ^ 9 *
      (a.pml4 + 2 ^ 9 * a.high)))) := by
    rw [value, zero, Nat.zero_add]
    rfl
  constructor
  · rw [rest, value, Nat.add_comm]
  · rw [rest]
    exact Nat.dvd_mul_right ..

/-- Where the addresses of the kernel's half end. -/
def kernelEnd : Nat := 2 ^ 47

theorem upper_of_kernelEnd_le {a : LinearAddress4Level} (canonical : a.Canonical)
    (le : kernelEnd ≤ a.value) : a.Upper := by
  by_contra lower
  rw [Upper] at lower
  rw [Canonical, if_neg lower] at canonical
  rw [kernelEnd, value, canonical] at le
  omega

/-! ## Mappings -/

/-- A call of `MapFile` does not take the mappings down into the kernel's half. -/
def AboveKernel (task : AppTask) : MemoryCall → Prop
  | .demandPages _ => True
  | .mapFile files fd => ∀ size, openSize files fd = some size →
      size ≤ task.fileMapEnd - kernelEnd

/-- Mappings lie one below the other, down to `FileMapEnd`. -/
structure Mapped (task : AppTask) : Prop where
  aligned : 4096 ∣ task.fileMapEnd
  half : kernelEnd ≤ task.fileMapEnd
  small : task.fileMapEnd < 2 ^ 64
  maps : ∀ m ∈ task.fileMaps, task.fileMapEnd ≤ m.vaddrBegin
  apart : task.fileMaps.Pairwise fun m later => later.vaddrEnd ≤ m.vaddrBegin

section

variable {task : AppTask} {size : Nat} {fd : Int} {m : FileMapping}

theorem Launches.mapped {appLoad : AppLoadInfo} (launches : Launches appLoad task) :
    Mapped task := by
  have half : kernelEnd ≤ Launcher.stackFrameAddr.toNat := by
    rw [show Launcher.stackFrameAddr.toNat = 0xfffffffffffef000 by decide]
    decide
  rw [launches.eq_entered]
  exact
    { aligned := dvd_stackFrameAddr
      half := half
      small := BitVec.isLt _
      maps := fun m member => absurd member List.not_mem_nil
      apart := .nil }

/-- The mapping of a file begins at a page, and covers the file. -/
theorem Mapped.mapping (mapped : Mapped task) (fits : size ≤ task.fileMapEnd - kernelEnd)
    (fd : Int) : 4096 ∣ (task.mapping fd size).vaddrBegin ∧
      kernelEnd ≤ (task.mapping fd size).vaddrBegin ∧
      (task.mapping fd size).vaddrBegin + size ≤ (task.mapping fd size).vaddrEnd ∧
      (task.mapping fd size).vaddrEnd < (task.mapping fd size).vaddrBegin + size + 4096 := by
  have half := mapped.half
  have beginEq := vaddrBegin_mapping mapped.small (show size ≤ _ by omega) fd
  have endEq : (task.mapping fd size).vaddrEnd = task.fileMapEnd := rfl
  constructor
  · rw [beginEq]
    exact Nat.dvd_mul_left ..
  · rw [kernelEnd] at half fits ⊢
    omega

theorem Mapped.call (mapped : Mapped task) {c : MemoryCall} (half : AboveKernel task c) :
    Mapped (task.call c) := by
  cases c with
  | demandPages numPages =>
      exact ⟨mapped.aligned, mapped.half, mapped.small, mapped.maps, mapped.apart⟩
  | mapFile files fd =>
      rw [AppTask.call, mapFile]
      cases found : openSize files fd with
      | none => exact mapped
      | some size =>
          rcases mapped.mapping (half size found) fd with ⟨aligned, inHalf, covers, -⟩
          have endEq : (task.mapping fd size).vaddrEnd = task.fileMapEnd := rfl
          have small := mapped.small
          constructor
          · exact aligned
          · exact inHalf
          · change (task.mapping fd size).vaddrBegin < 2 ^ 64
            omega
          · intro m mem
            change (task.mapping fd size).vaddrBegin ≤ m.vaddrBegin
            rcases List.mem_append.mp mem with old | new
            · have above := mapped.maps m old
              omega
            · rw [List.mem_singleton] at new
              rw [new]
          · rw [List.pairwise_append]
            refine ⟨mapped.apart, List.pairwise_singleton .., ?_⟩
            intro m old new mem
            rw [List.mem_singleton] at mem
            rw [mem, endEq]
            exact mapped.maps m old

/-- A mapping is not forgotten. -/
theorem mem_call {c : MemoryCall} (mem : m ∈ task.fileMaps) : m ∈ (task.call c).fileMaps := by
  cases c with
  | demandPages numPages => exact mem
  | mapFile files fd =>
      rw [AppTask.call, mapFile]
      cases openSize files fd with
      | none => exact mem
      | some size => exact List.mem_append_left _ mem

theorem mem_mapFile {files : List (Option Nat)} (opened : openSize files fd = some size) :
    task.mapping fd size ∈ (task.call (.mapFile files fd)).fileMaps := by
  rw [AppTask.call, mapFile, opened]
  exact List.mem_append_right _ (List.mem_singleton_self _)

/-- The search finds the mapping that an address belongs to. -/
theorem Mapped.find (mapped : Mapped task) (mem : m ∈ task.fileMaps) {x : Nat}
    (lower : m.vaddrBegin ≤ x) (upper : x < m.vaddrEnd) :
    Machine.findFileMapping task.fileMaps x = some m := by
  cases found : Machine.findFileMapping task.fileMaps x with
  | none =>
      have nowhere := List.find?_eq_none.mp found m mem
      simp only [decide_eq_true_eq] at nowhere
      exact absurd ⟨lower, upper⟩ nowhere
  | some other =>
      have inside := List.find?_some found
      simp only [decide_eq_true_eq] at inside
      have isMap := List.mem_of_find?_eq_some found
      have same := List.Pairwise.forall_of_forall_of_flip
        (R := fun m later : FileMapping => (m.vaddrBegin ≤ x ∧ x < m.vaddrEnd) →
          (later.vaddrBegin ≤ x ∧ x < later.vaddrEnd) → m = later)
        (fun _ _ _ _ => rfl) (mapped.apart.imp fun le here there => by omega)
        (mapped.apart.imp fun le here there => by omega)
      rw [same isMap mem inside ⟨lower, upper⟩]

end

/-! ## Faults -/

/-- A fault on a page of the upper half that is not present. -/
structure NotPresent (s : Machine) (errorCode : BitVec 64) (a : LinearAddress4Level) : Prop where
  isUpper : a.Upper
  absent : errorCode.getLsbD 0 = false
  leaf : s.leaf a 4 s.cr3 = none

section

variable {s : Machine} {errorCode : BitVec 64} {a : LinearAddress4Level} {t : AppTask}
  {load : Nat → Nat → Frame → Frame} {m : FileMapping}

theorem inRange_one {b : LinearAddress4Level} (inside : a.InRange 1 b) : AgreeFrom 1 a b := by
  rcases inside with ⟨lower, upper⟩
  exact agreeFrom_one_of_index (by omega)

/-- What `PreparePageCache` does for a page that is not present. -/
theorem preparePageCache_spec (load : Nat → Nat → Frame → Frame) (m : FileMapping)
    (tree : s.FourLevel s.cr3) (notPresent : NotPresent s errorCode a) :
    ∃ s' e, s.preparePageCache load m a = some (s', e) ∧ s'.FourLevel s.cr3 ∧ s'.cr3 = s.cr3 ∧
      (e = .success → ∃ entry, s'.leaf a 4 s.cr3 = some entry ∧
        s'.mem entry.pointer = load m.fd (a.aligned.value - m.vaddrBegin) fun _ => 0) ∧
      ∀ b : LinearAddress4Level, b.Upper → ¬ AgreeFrom 1 a b →
        s'.leaf b 4 s.cr3 = s.leaf b 4 s.cr3 ∧
        ∀ entry, s.leaf b 4 s.cr3 = some entry → s'.mem entry.pointer = s.mem entry.pointer := by
  have isUpper : a.aligned.Upper := (agreeFrom_aligned a).upper (by decide) notPresent.isUpper
  have leafEq : ∀ s : Machine, ∀ root, s.leaf a.aligned 4 root = s.leaf a 4 root :=
    fun s root => Machine.leaf_of_parts 4 root fun k _ _ => part_aligned a k
  rcases result : s.setupPageMaps a.aligned 1 true with ⟨s₁, e⟩
  have exact := Machine.setupPageMaps_exact s tree a.aligned isUpper 1 true s₁ e result
  rcases tree.setupPageMaps isUpper result with ⟨tree₁, cr3₁⟩
  have others : ∀ b : LinearAddress4Level, b.Upper → ¬ AgreeFrom 1 a b →
      s₁.leaf b 4 s.cr3 = s.leaf b 4 s.cr3 ∧
      ∀ f, s.node s.cr3 b 0 = some f → s₁.mem f = s.mem f := by
    intro b isUpper' ne
    constructor
    · apply tree.leaf_setupPageMaps isUpper result isUpper'
      intro inside
      exact ne ((agreeFrom_aligned a).trans (inRange_one inside))
    · exact fun f page => tree.content_setupPageMaps isUpper result isUpper' page
  have pageOf : ∀ {s : Machine} {b : LinearAddress4Level} {root entry},
      s.leaf b 4 root = some entry → s.node root b 0 = some entry.pointer := by
    intro s b root entry leaf
    rw [Machine.node_zero_eq_leaf, leaf]
    rfl
  by_cases success : e = .success
  · subst success
    have mapped := (exact.1 rfl).1 a.aligned isUpper ⟨le_rfl, by omega⟩
    rcases mapped.page with ⟨entry, leaf, -⟩
    have page := pageOf leaf
    rcases mapped.fresh (by rw [leafEq, notPresent.leaf]) with ⟨f, pointer, -, zero, -⟩
    rw [leaf] at pointer
    cases pointer
    -- the processor finds the new page
    have translation := tree₁.mapping.translateIn_frame isUpper
    rw [page] at translation
    rcases Option.map_eq_some_iff.mp translation with ⟨found, translated, frameEq⟩
    rw [Machine.preparePageCache, result]
    simp only [Machine.translate, cr3₁, translated, Option.map_some, frameEq, zero]
    refine ⟨_, _, rfl, tree₁.setFrame isUpper page _, cr3₁, ?_, ?_⟩
    · intro _
      refine ⟨entry, ?_, Machine.mem_setFrame_self ..⟩
      rw [tree₁.leaf_setFrame isUpper page _ notPresent.isUpper, ← leafEq, leaf]
    · intro b isUpper' ne
      rcases others b isUpper' ne with ⟨leafSame, contentSame⟩
      constructor
      · rw [tree₁.leaf_setFrame isUpper page _ isUpper', leafSame]
      · intro other leaf'
        have page' : s₁.node s.cr3 b 0 = some other.pointer := pageOf (leafSame.trans leaf')
        rw [Machine.mem_setFrame_of_ne, contentSame _ (pageOf leaf')]
        intro same
        rw [same] at page'
        have agree := (tree₁.tree _ b isUpper isUpper' 0 (by decide) 0 (by decide) _ page page').2
        exact ne ((agreeFrom_aligned a).trans agree)
  · refine ⟨s₁, e, ?_, tree₁, cr3₁, fun same => absurd same success, ?_⟩
    · rw [Machine.preparePageCache, result]
      cases e with
      | success => exact absurd rfl success
      | _ => rfl
    · intro b isUpper' ne
      rcases others b isUpper' ne with ⟨leafSame, contentSame⟩
      exact ⟨leafSame, fun entry leaf => contentSame _ (pageOf leaf)⟩

/-- A fault outside the region of demand paging is left to the mapping of its address. -/
theorem handlePageFault_of_mapping (absent : errorCode.getLsbD 0 = false)
    (elsewhere : ¬ (t.dpagingBegin ≤ a.value ∧ a.value < t.dpagingEnd))
    (found : Machine.findFileMapping t.fileMaps a.value = some m) :
    s.handlePageFault t load errorCode a = s.preparePageCache load m a := by
  rw [Machine.handlePageFault, absent]
  simp only [Bool.false_and, Bool.false_eq_true, if_false, if_neg elsewhere, found]

/-- Faults on pages that are not present keep the tree. -/
theorem fourLevel_handlePageFault (tree : s.FourLevel s.cr3)
    (notPresent : NotPresent s errorCode a) {s' : Machine} {e : Error}
    (handled : s.handlePageFault t load errorCode a = some (s', e)) :
    s'.FourLevel s.cr3 ∧ s'.cr3 = s.cr3 := by
  rw [Machine.handlePageFault, notPresent.absent] at handled
  simp only [Bool.false_and, Bool.false_eq_true, if_false] at handled
  split at handled
  · exact tree.setupPageMaps notPresent.isUpper (Option.some.inj handled)
  · split at handled
    · rename_i m _
      rcases preparePageCache_spec load m tree notPresent with
        ⟨s₁, e₁, prepared, tree₁, cr3₁, -⟩
      rw [prepared] at handled
      cases handled
      exact ⟨tree₁, cr3₁⟩
    · cases handled
      exact ⟨tree, rfl⟩

end

/-! ## A process -/

/-- An application's page maps, and its task. -/
structure Process where
  machine : Machine
  task : AppTask

/-- What may happen to a process: a call that moves its regions, or a page fault. -/
inductive Event
  | call (c : MemoryCall)
  | fault (load : Nat → Nat → Frame → Frame) (errorCode : BitVec 64) (a : LinearAddress4Level)

/-- Calls and faults, in any order.  The calls keep the mappings above the
kernel's half. -/
inductive Process.Step : Transition.Step Process Event
  | call {s : Machine} {t : AppTask} {c : MemoryCall} :
      AboveKernel t c → Step ⟨s, t⟩ (.call c) ⟨s, t.call c⟩
  | fault {s s' : Machine} {t : AppTask} {load : Nat → Nat → Frame → Frame}
      {errorCode : BitVec 64} {a : LinearAddress4Level} {e : Error} :
      NotPresent s errorCode a → s.handlePageFault t load errorCode a = some (s', e) →
      Step ⟨s, t⟩ (.fault load errorCode a) ⟨s', t⟩

/-- The page maps are a tree, and the mappings lie in order. -/
structure Process.Ok (root : Nat) (p : Process) : Prop where
  tree : p.machine.FourLevel root
  cr3 : p.machine.cr3 = root
  mapped : Mapped p.task

theorem Process.Ok.step {root : Nat} {p p' : Process} {event : Event} (ok : p.Ok root)
    (step : Process.Step p event p') : p'.Ok root := by
  rcases ok with ⟨tree, rfl, mapped⟩
  cases step with
  | call half => exact ⟨tree, rfl, mapped.call half⟩
  | fault notPresent handled =>
      rcases fourLevel_handlePageFault tree notPresent handled with ⟨tree', cr3'⟩
      exact ⟨tree', cr3', mapped⟩

theorem Process.mem_step {m : FileMapping} {p p' : Process} {event : Event}
    (mem : m ∈ p.task.fileMaps) (step : Process.Step p event p') : m ∈ p'.task.fileMaps := by
  cases step with
  | call half => exact mem_call mem
  | fault notPresent handled => exact mem

/-! ## Mapped files -/

/-- A file of the given size on a well-formed volume. -/
structure IsFile (v : Volume) (fd : FileDescriptor) (l : List Nat) (size : Nat) : Prop where
  valid : v.bpb.Valid
  chain : v.OwnChain fd.fatEntry l
  covers : v.fileSize fd.fatEntry ≤ l.length * v.bytesPerCluster
  size : v.fileSize fd.fatEntry = size

/-- What a fault on a page of a mapped file does. -/
structure PageRead (v : Volume) (fd : FileDescriptor) (l : List Nat) (size : Nat) (t : AppTask)
    (m : FileMapping) (load : Nat → Nat → Frame → Frame) (errorCode : BitVec 64)
    (a : LinearAddress4Level) (s s' : Machine) (e : Error) : Prop where
  handled : s.handlePageFault t load errorCode a = some (s', e)
  /-- what `Load` makes of pages at other offsets has no influence -/
  only : ∀ load', (∀ offset page, offset < size → load' m.fd offset page = load m.fd offset page) →
    s.handlePageFault t load' errorCode a = s.handlePageFault t load errorCode a
  loaded : ∃ copied, v.load fd 4096 (a.aligned.value - m.vaddrBegin) = .ok copied
  page : e = .success → ∃ entry, s'.leaf a 4 s.cr3 = some entry ∧ ∀ i : Fin 4096,
    s'.byte entry.pointer i =
      if a.aligned.value - m.vaddrBegin + i < size
      then v.content l (a.aligned.value - m.vaddrBegin + i) else 0
  others : ∀ b : LinearAddress4Level, b.Upper → ¬ AgreeFrom 1 a b →
    s'.leaf b 4 s.cr3 = s.leaf b 4 s.cr3 ∧
    ∀ entry, s.leaf b 4 s.cr3 = some entry → s'.mem entry.pointer = s.mem entry.pointer

/-- A mapping that begins and ends at pages and has less than a page to spare: its pages
begin inside the file. -/
theorem offset_lt {m : FileMapping} {size : Nat} {a : LinearAddress4Level}
    (beginAligned : 4096 ∣ m.vaddrBegin) (endAligned : 4096 ∣ m.vaddrEnd)
    (tight : m.vaddrEnd < m.vaddrBegin + size + 4096) (upper : a.value < m.vaddrEnd) :
    a.aligned.value - m.vaddrBegin < size ∨ size = 0 := by
  rcases value_aligned a with ⟨split, pageAligned⟩
  have := a.offset.isLt
  omega

/-- However calls and faults are interleaved after `MapFile` has mapped a file, a fault on a
page of the mapping fills the page with the file, and touches no other page. -/
theorem mapped_file_reads {appLoad : AppLoadInfo} {task₀ t₁ t : AppTask}
    (launches : Launches appLoad task₀) {s₀ s₁ s : Machine} (tree : s₀.FourLevel s₀.cr3)
    {events₁ events₂ : List Event} (run₁ : Run Process.Step ⟨s₀, task₀⟩ events₁ ⟨s₁, t₁⟩)
    {files : List (Option Nat)} {fd : Int} {size : Nat} (opened : openSize files fd = some size)
    (positive : 0 < size) (half : AboveKernel t₁ (.mapFile files fd))
    (run₂ : Run Process.Step ⟨s₁, t₁.call (.mapFile files fd)⟩ events₂ ⟨s, t⟩) :
    4096 ∣ (t₁.mapping fd size).vaddrBegin ∧
    (t₁.mapping fd size).vaddrBegin + size ≤ (t₁.mapping fd size).vaddrEnd ∧
    (Disjoint (Set.Ico t.dpagingBegin t.dpagingEnd)
        (Set.Ico (t₁.mapping fd size).vaddrBegin (t₁.mapping fd size).vaddrEnd) →
      ∀ v file l load errorCode a, IsFile v file l size →
        (∀ offset page, load (t₁.mapping fd size).fd offset page = loadPage v file offset page) →
        a.Canonical → (t₁.mapping fd size).vaddrBegin ≤ a.value →
        a.value < (t₁.mapping fd size).vaddrEnd →
        errorCode.getLsbD 0 = false → s.leaf a 4 s.cr3 = none →
        ∃ s' e, PageRead v file l size t (t₁.mapping fd size) load errorCode a s s' e) := by
  have start : Process.Ok s₀.cr3 ⟨s₀, task₀⟩ := ⟨tree, rfl, launches.mapped⟩
  have ok₁ : Process.Ok s₀.cr3 ⟨s₁, t₁⟩ :=
    run₁.invariant (fun _ _ _ ok step => Process.Ok.step ok step) start
  have ok₂ := ok₁.step (.call half)
  have ok := run₂.invariant (fun _ _ _ ok step => Process.Ok.step ok step) ok₂
  have mem := run₂.invariant (fun _ _ _ mem step => Process.mem_step mem step)
    (mem_mapFile opened : t₁.mapping fd size ∈ (t₁.call (.mapFile files fd)).fileMaps)
  have endAligned : 4096 ∣ (t₁.mapping fd size).vaddrEnd := ok₁.mapped.aligned
  rcases ok₁.mapped.mapping (half size opened) fd with ⟨aligned, inHalf, covers, tight⟩
  generalize t₁.mapping fd size = m at *
  refine ⟨aligned, covers, ?_⟩
  intro disjoint v file l load errorCode a isFile isLoad canonical lower upper absent leaf
  have notPresent : NotPresent s errorCode a :=
    ⟨upper_of_kernelEnd_le canonical (inHalf.trans lower), absent, leaf⟩
  have elsewhere : ¬ (t.dpagingBegin ≤ a.value ∧ a.value < t.dpagingEnd) := fun inside =>
    Set.disjoint_left.mp disjoint inside ⟨lower, upper⟩
  have isPage : s.handlePageFault t load errorCode a = s.preparePageCache load m a :=
    handlePageFault_of_mapping absent elsewhere (ok.mapped.find mem lower upper)
  have inside : a.aligned.value - m.vaddrBegin < v.fileSize file.fatEntry := by
    rcases offset_lt aligned endAligned tight upper with lt | none
    · rwa [isFile.size]
    · omega
  have cr3 : s.cr3 = s₀.cr3 := ok.cr3
  rcases preparePageCache_spec load m (cr3 ▸ ok.tree) notPresent with
    ⟨s', e, prepared, tree', cr3', page, others⟩
  refine ⟨s', e, ?_⟩
  constructor
  · rw [isPage, prepared]
  · intro load' same
    rw [isPage, handlePageFault_of_mapping absent elsewhere (ok.mapped.find mem lower upper),
      Machine.preparePageCache, Machine.preparePageCache]
    simp only [same _ _ (isFile.size ▸ inside)]
  · exact ⟨_, Volume.load_eq isFile.valid isFile.chain isFile.covers inside.le⟩
  · intro success
    rcases page success with ⟨entry, leaf', content⟩
    refine ⟨entry, leaf', fun i => ?_⟩
    rw [byte_eq_pageByte, content, isLoad,
      pageByte_loadPage isFile.valid isFile.chain isFile.covers inside i.isLt, isFile.size]
  · exact others

/-! ## A small file -/

/-- The small volume with five bytes in the file `B`. -/
def fiveBytes : Volume :=
  ((Volume.smallVolumeWithFile.setFat 4 kEndOfClusterchain).setFirstCluster Volume.entryB
    4).setFileSize Volume.entryB 5

theorem isFile_fiveBytes : IsFile fiveBytes (.make Volume.entryB) [4] 5 where
  valid := Volume.valid_smallBpb
  chain := by
    right
    have first : fiveBytes.firstCluster (FileDescriptor.make Volume.entryB).fatEntry = 4 := by
      decide
    rw [first]
    constructor
    · exact .last (by decide)
    · intro c mem
      rw [List.mem_singleton.mp mem]
      decide
  covers := by decide
  size := by decide

/-- A file of five bytes is mapped, and its page is accessed. -/
theorem mapped_file_reads_fiveBytes :
    ∃ s' e, PageRead fiveBytes (.make Volume.entryB) [4] 5
      (smallTask.call (.mapFile [some 5] 0)) (smallTask.mapping 0 5)
      (fun _ => loadPage fiveBytes (.make Volume.entryB)) 4 (.ofValue 0xfffffffffffee002)
      Machine.smallMachine s' e := by
  have leaf : Machine.smallMachine.leaf (.ofValue 0xfffffffffffee002) 4 0 = none := by decide
  have half : AboveKernel smallTask (.mapFile [some 5] 0) := by
    rintro size found
    cases found
    decide
  have reads := mapped_file_reads launches_smallTask
    (show Machine.smallMachine.FourLevel Machine.smallMachine.cr3 from Machine.fourLevel_smallMachine)
    (.nil _) (show openSize [some 5] 0 = some 5 from rfl) (by decide) half (.nil _)
  apply reads.2.2
  · rw [Set.disjoint_left]
    rintro x ⟨lower, upper⟩
    exact absurd (lower.trans_lt upper) (by decide)
  · exact isFile_fiveBytes
  · exact fun _ _ => rfl
  · decide
  · decide
  · decide
  · decide
  · exact leaf

end Mikanos.Loader
