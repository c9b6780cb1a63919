import Mikanos.Fat.Isolation
import Mikanos.Fat.Stored

/-!
# At the end of a file

A descriptor stands at the end of a file whose chain may be any.  A call of `Write` that
fits stores its buffer there, whatever was written to other files before, and the file
keeps what it holds while others are written.
-/

namespace Mikanos.Fat

open Mikanos.Memory Mikanos.Chain

namespace Volume

variable {v v' : Volume} {content buf : Mem} {first c o p len total e e' : Nat} {l new m : List Nat}
  {fd : FileDescriptor}

/-! ## The state of the loop -/

/-- The chain holds the first `p` bytes of the content, and the cursor stands behind these in
its last cluster. -/
structure Ends (v : Volume) (content : Mem) (first : Nat) (l : List Nat) (c o p : Nat) : Prop where
  cursor : Cursor v first l (l.length - 1) c o
  position : (l.length - 1) * v.bytesPerCluster + o = p
  bytes : ∀ q < p, v.content l q = content q

namespace Ends

theorem length_pos (ends : Ends v content first l c o p) : 0 < l.length :=
  Nat.zero_lt_of_lt ends.cursor.lt_length

/-- What is written lies in the chain. -/
theorem inside (ends : Ends v content first l c o p) : p ≤ l.length * v.bytesPerCluster := by
  have last : l.length - 1 + 1 = l.length := Nat.sub_add_cancel ends.length_pos
  rw [← ends.position, ← last, Nat.add_sub_cancel, Nat.succ_mul]
  exact Nat.add_le_add_left ends.cursor.off_le _

/-- A round that copies `n` bytes to the last cluster. -/
theorem copied (valid : v.bpb.Valid) (ends : Ends v content first l c o p) {n : Nat}
    (agrees : ∀ j < n, content (p + j) = buf (total + j)) (le : o + n ≤ v.bytesPerCluster) :
    Ends (v.copyIn buf (v.bpb.getClusterAddr c) o total n) content first l c (o + n) (p + n) := by
  have room : p + n ≤ l.length * v.bytesPerCluster := by
    have last : l.length - 1 + 1 = l.length := Nat.sub_add_cancel ends.length_pos
    rw [← ends.position, ← last, Nat.add_sub_cancel, Nat.succ_mul, Nat.add_assoc]
    exact Nat.add_le_add_left le _
  refine ⟨cursor_copyIn valid ends.cursor buf total le, ?_, ?_⟩
  · rw [bytesPerCluster_copyIn, ← Nat.add_assoc, ends.position]
  · intro q lt
    have at_p : v.position (l.length - 1) o = p := ends.position
    rw [Volume.content, fileByte_copyIn valid ends.cursor buf le (lt.trans_le room), at_p]
    by_cases old : q < p
    · rw [if_neg (fun both => absurd old (Nat.not_lt.mpr both.1))]
      exact ends.bytes q old
    · have here : content q = buf (total + (q - p)) := by
        rw [← agrees (q - p) (by omega), Nat.add_sub_of_le (Nat.le_of_not_lt old)]
      rw [if_pos ⟨Nat.le_of_not_lt old, lt⟩, here]

/-- One cluster is appended. -/
theorem extended (valid : v.bpb.Valid) (ends : Ends v content first l c o p)
    (full : o = v.bytesPerCluster) (more : total < len) (one : v.numCluster (len - total) = 1)
    (some : v.free ≠ []) :
    ∃ v₁ c', v.advance len total c o = .ok (v₁, c', 0) ∧ v₁.bpb = v.bpb ∧
      Ends v₁ content first (l ++ [c']) c' 0 p ∧ v.free = c' :: v₁.free := by
  have last : l.length - 1 + 1 = l.length := Nat.sub_add_cancel ends.length_pos
  rcases advance_cases valid ends.cursor len total more with
    ⟨notFull, -⟩ | ⟨-, c', get, -⟩ | ⟨-, atEnd, appends⟩
  · exact absurd full (Nat.ne_of_lt notFull)
  · have beyond := (List.getElem?_eq_some_iff.mp get).1
    exact absurd beyond (by omega)
  · have enough : 1 ≤ v.free.length := List.length_pos_of_ne_nil some
    rw [one, if_pos enough] at appends
    obtain ⟨c', new, v₁, newEq, advances, isLast, linked⟩ := appends
    obtain ⟨d, rest, split⟩ := List.exists_cons_of_ne_nil some
    rw [split, List.take_succ_cons, List.take_zero] at newEq
    rw [newEq, List.getLast?_singleton] at isLast
    cases isLast
    rw [newEq] at linked
    have isFree : ∀ x ∈ [c'], x ∈ v.free := by
      rw [split]
      exact fun x member => List.mem_singleton.mp member ▸ List.mem_cons_self
    have advanced := advanced_of_linked ends.cursor atEnd linked isFree
      (List.getLast?_singleton) valid.bytesPerCluster_pos
    have used : v.fat c ≠ 0 := ends.cursor.chain.fat_ne_zero ends.cursor.mem
    have left : v₁.free = rest := linked.free_eq (.inl ⟨used, rfl⟩) split
    have bpb : v₁.bpb = v.bpb := linked.sameData.bpb
    have bytes : v₁.bytesPerCluster = v.bytesPerCluster := congrArg BPB.bytesPerCluster bpb
    have index : (l ++ [c']).length - 1 = l.length := by
      rw [List.length_append, List.length_singleton, Nat.add_sub_cancel]
    refine ⟨v₁, c', advances, bpb, ⟨?_, ?_, ?_⟩, by rw [split, left]⟩
    · rw [List.length_append]
      exact advanced.cursor
    · rw [index, bytes, Nat.add_zero, ← ends.position, full, ← Nat.succ_mul, Nat.succ_eq_add_one,
        last]
    · intro q lt
      have within : q < l.length * v.bytesPerCluster := lt.trans_le ends.inside
      have old : v₁.fileByte l q = content q :=
        (fileByte_congr valid ends.cursor.chain linked.sameData within).trans (ends.bytes q lt)
      have inOld : q / v₁.bytesPerCluster < l.length := by
        rw [bytes]
        exact (Nat.div_lt_iff_lt_mul valid.bytesPerCluster_pos).mpr within
      rw [← old, Volume.content, fileByte, fileByte, List.getD_eq_getElem?_getD,
        List.getD_eq_getElem?_getD, List.getElem?_append_left inOld]

/-- One round of the loop, from the cluster that its start has reached. -/
theorem round {w : Volume} {c₀ o₀ n : Nat} (valid : v.bpb.Valid)
    (ends : Ends v content first l c o p) (more : total < len)
    (advanceEq : w.advance len total c₀ o₀ = .ok (v, c, o)) (nEq : min len (v.bytesPerCluster - o) = n)
    (agrees : ∀ j < n, content (p + j) = buf (total + j)) :
    ∃ v', (∀ fuel, writeLoop buf len (fuel + 1) w total c₀ o₀ =
        writeLoop buf len fuel v' (total + n) c (o + n)) ∧
      Ends v' content first l c (o + n) (p + n) ∧ v'.bpb = v.bpb ∧ v'.free = v.free := by
  have off_le := ends.cursor.off_le
  have same : SameFat v (v.copyIn buf (v.bpb.getClusterAddr c) o total n) :=
    sameFat_copyIn v buf total n (valid.dataOffset_le_getClusterAddr ends.cursor.has)
  refine ⟨v.copyIn buf (v.bpb.getClusterAddr c) o total n, fun fuel => ?_,
    ends.copied valid agrees (by omega), bpb_copyIn .., free_sameFat valid same⟩
  rw [writeLoop_round buf more advanceEq ends.cursor.has, nEq]

/-- The cursor stands inside its cluster. -/
theorem stays (inside : o < v.bytesPerCluster) : v.advance len total c o = .ok (v, c, o) := by
  rw [advance, if_neg (Nat.ne_of_lt inside)]

/-- The loop ends. -/
theorem stop {fuel : Nat} (left : 0 < fuel) :
    writeLoop buf len fuel v len c o = .ok (v, len, c, o) := by
  rw [← Nat.sub_add_cancel left, writeLoop, if_neg (Nat.lt_irrefl _)]

/-- A call that fits, from the end of the file on. -/
theorem appends (valid : v.bpb.Valid) (ends : Ends v content first l c o p)
    (fits : Fits v.bytesPerCluster o len) (agrees : ∀ j < len, content (p + j) = buf j)
    (room : l.length * v.bytesPerCluster < p + len → v.free ≠ []) :
    ∃ v' new c' o', writeLoop buf len (len + 1) v 0 c o = .ok (v', len, c', o') ∧
      Ends v' content first (l ++ new) c' o' (p + len) ∧ v.free = new ++ v'.free ∧
      (0 < o' ∨ len = 0 ∧ o' = o) := by
  have positive : 0 < v.bytesPerCluster := valid.bytesPerCluster_pos
  have off_le := ends.cursor.off_le
  have atEnd : (l.length - 1) * v.bytesPerCluster + v.bytesPerCluster =
      l.length * v.bytesPerCluster := by
    rw [← Nat.succ_mul, Nat.succ_eq_add_one, Nat.sub_add_cancel ends.length_pos]
  have position := ends.position
  rcases Nat.eq_zero_or_pos len with rfl | more
  · refine ⟨v, [], c, o, stop Nat.one_pos, ?_, rfl, .inr ⟨rfl, rfl⟩⟩
    rwa [List.append_nil]
  have agrees₀ {n : Nat} (le : n ≤ len) : ∀ j < n, content (p + j) = buf (0 + j) := by
    intro j lt
    rw [Nat.zero_add]
    exact agrees j (by omega)
  by_cases full : o = v.bytesPerCluster
  · -- one round in a new cluster
    have short : len ≤ v.bytesPerCluster := by
      rcases fits with inside | twice | ⟨-, short⟩
      · omega
      · omega
      · exact short
    have one := numCluster_one v more short
    obtain ⟨v₁, c₁, advances, bpb, ends₁, free⟩ :=
      ends.extended valid full more (by rwa [Nat.sub_zero]) (room (by omega))
    have bytes : v₁.bytesPerCluster = v.bytesPerCluster := congrArg BPB.bytesPerCluster bpb
    have valid₁ : v₁.bpb.Valid := by
      rw [bpb]
      exact valid
    have whole : min len (v₁.bytesPerCluster - 0) = len := by omega
    obtain ⟨v', roundEq, ends', -, free'⟩ := ends₁.round valid₁ more advances whole
      (agrees₀ le_rfl)
    rw [Nat.zero_add] at ends' roundEq
    refine ⟨v', [c₁], c₁, len, ?_, ends', by rw [free, free']; rfl, .inl more⟩
    rw [roundEq]
    exact stop more
  · have standing : v.advance len 0 c o = .ok (v, c, o) :=
      stays (Nat.lt_of_le_of_ne off_le full)
    rcases fits with inside | twice | ⟨full', -⟩
    · -- one round in the cluster of the cursor
      have whole : min len (v.bytesPerCluster - o) = len := by omega
      obtain ⟨v', roundEq, ends', -, free'⟩ := ends.round valid more standing whole
        (agrees₀ le_rfl)
      refine ⟨v', [], c, o + len, ?_, by rwa [List.append_nil], free'.symm, .inl (by omega)⟩
      rw [roundEq, Nat.zero_add]
      exact stop more
    · -- one round to the end of the cluster, and one for all of a new cluster
      have rest : len - (v.bytesPerCluster - o) = v.bytesPerCluster := by omega
      have first : min len (v.bytesPerCluster - o) = v.bytesPerCluster - o := by omega
      obtain ⟨v₁, roundEq, ends₁, bpb₁, free₁⟩ := ends.round valid more standing first
        (agrees₀ (by omega))
      rw [Nat.add_sub_of_le off_le] at ends₁ roundEq
      rw [Nat.zero_add] at roundEq
      have bytes₁ : v₁.bytesPerCluster = v.bytesPerCluster := congrArg BPB.bytesPerCluster bpb₁
      have more₁ : v.bytesPerCluster - o < len := by omega
      have one : v₁.numCluster (len - (v.bytesPerCluster - o)) = 1 :=
        numCluster_one v₁ (by omega) (by omega)
      have valid₁ : v₁.bpb.Valid := by
        rw [bpb₁]
        exact valid
      have some₁ : v₁.free ≠ [] := by
        rw [free₁]
        exact room (by omega)
      obtain ⟨v₂, c₂, advances, bpb₂, ends₂, free₂⟩ :=
        ends₁.extended valid₁ bytes₁.symm more₁ one some₁
      have bytes₂ : v₂.bytesPerCluster = v.bytesPerCluster :=
        (congrArg BPB.bytesPerCluster bpb₂).trans bytes₁
      have valid₂ : v₂.bpb.Valid := by
        rw [bpb₂]
        exact valid₁
      have second : min len (v₂.bytesPerCluster - 0) = v.bytesPerCluster := by omega
      have agrees₁ : ∀ j < v.bytesPerCluster,
          content (p + (v.bytesPerCluster - o) + j) = buf (v.bytesPerCluster - o + j) := by
        intro j lt
        rw [Nat.add_assoc]
        exact agrees _ (by omega)
      obtain ⟨v', roundEq', ends', -, free'⟩ := ends₂.round valid₂ more₁ advances second agrees₁
      have all : v.bytesPerCluster - o + v.bytesPerCluster = len := by omega
      have rounds := roundEq' (len - 1)
      rw [Nat.sub_add_cancel more, all, Nat.zero_add] at rounds
      rw [Nat.zero_add, Nat.add_assoc, all] at ends'
      refine ⟨v', [c₂], c₂, v.bytesPerCluster, ?_, ends', ?_, .inl positive⟩
      · rw [roundEq, rounds]
        exact stop (by omega)
      · rw [← free₁, free₂, free']
        rfl
    · exact absurd full' full

/-- What is kept of a file elsewhere. -/
theorem keeps (ends : Ends v content first l c o p) (bpb : v'.bpb = v.bpb)
    (chain : v'.Chain first l) (data : ∀ d ∈ l, ∀ a, v.InCluster d a → v'.mem a = v.mem a) :
    Ends v' content first l c o p := by
  have bytes : v'.bytesPerCluster = v.bytesPerCluster := congrArg BPB.bytesPerCluster bpb
  refine ⟨⟨chain, ends.cursor.get, ?_⟩, ?_, ?_⟩
  · rw [bytes]
    exact ends.cursor.off_le
  · rw [bytes]
    exact ends.position
  · intro q lt
    obtain ⟨d, get, -, byte, inCluster⟩ :=
      exists_cluster ends.cursor.chain (lt.trans_le ends.inside)
    rw [← ends.bytes q lt, Volume.content, Volume.content, byte, fileByte, bytes, bpb,
      List.getD_eq_getElem?_getD, get, Option.getD_some]
    exact data d (List.mem_of_getElem? get) _ inCluster

/-- The new size is not part of the file. -/
theorem setFileSize (valid : v.bpb.Valid) (ends : Ends v content first l c o p)
    (away : v.Away e l) (size : Nat) : Ends (v.setFileSize e size) content first l c o p := by
  have chain := ends.cursor.chain
  refine ends.keeps rfl (chain.sameFat valid (sameFat_setFileSize away.data size)) ?_
  intro d member a inside
  apply mem_setFileSize
  intro assigned
  rw [Assigned, directoryEntrySize] at assigned
  apply away.apart d (chain.inside d member) (.inl member) (a - e)
  · rw [directoryEntrySize]
    omega
  · rwa [Nat.add_sub_of_le (by omega)]

end Ends

/-! ## Calls -/

/-- A descriptor stands at the end of its file, which holds the first `p` bytes of the
content in the chain `l`. -/
structure Tail (v : Volume) (content : Mem) (fd : FileDescriptor) (l : List Nat) (p : Nat) :
    Prop where
  ends : Ends v content (v.firstCluster fd.fatEntry) l fd.wrCluster fd.wrClusterOff p
  moved : 0 < fd.wrClusterOff ∨ p = 0
  wrOff : fd.wrOff = p
  fileSize : v.fileSize fd.fatEntry = p % 2 ^ 32

theorem Tail.offset (tail : Tail v content fd l p) :
    fd.wrClusterOff = offsetAt v.bytesPerCluster p :=
  (offsetAt_eq tail.ends.position tail.ends.cursor.off_le tail.moved).symm

theorem Tail.ownChain (tail : Tail v content fd l p) : v.OwnChain fd.fatEntry l :=
  .inr tail.ends.cursor.chain

/-- What a call has done that stored its buffer behind the `p` bytes of the file. -/
structure Appends (v v' : Volume) (content : Mem) (fd fd' : FileDescriptor) (l new : List Nat)
    (p len i : Nat) : Prop where
  tail : Tail v' content fd' (l ++ new) (p + len)
  wrote : Wrote v v' fd.fatEntry (v'.firstCluster fd.fatEntry) l new i
  fatEntry : fd'.fatEntry = fd.fatEntry
  free : v.free = new ++ v'.free

/-- A call that fits. -/
theorem Tail.append (valid : v.bpb.Valid) (tail : Tail v content fd l p)
    (away : v.Away fd.fatEntry l) (fits : Fits v.bytesPerCluster fd.wrClusterOff len)
    (agrees : ∀ j < len, content (p + j) = buf j)
    (room : l.length * v.bytesPerCluster < p + len → v.free ≠ []) :
    ∃ fd' v' new, v.write fd buf len = .ok (len, fd', v') ∧
      Appends v v' content fd fd' l new p len (l.length - 1) := by
  have cursor := tail.ends.cursor
  obtain ⟨v₁, new, c', o', loopEq, ends', free, moved⟩ := tail.ends.appends valid fits agrees room
  have started : v.startWrite fd len = .ok (v, fd.wrCluster) := by
    rw [startWrite, if_neg (ne_zero_of_has cursor.has)]
  obtain ⟨new', i', written, cursor', index_le, -, -⟩ := written_of_writeLoop valid cursor buf loopEq
  have start := Wrote.refl cursor.chain (l.length - 1)
  have written₁ : Written v v₁ (v.firstCluster fd.fatEntry) (l ++ []) new' (l.length - 1) := by
    rw [List.append_nil]
    exact written
  have cursor₁ : Cursor v₁ (v.firstCluster fd.fatEntry) (l ++ [] ++ new') i' c' o' := by
    rw [List.append_nil]
    exact cursor'
  obtain ⟨fd', writeEq, clusterEq, offEq, firstEq, completes⟩ :=
    completes_of_loop valid away started start loopEq written₁ cursor₁ index_le le_rfl
  have same : l ++ new = l ++ new' := ends'.cursor.chain.unique written.chain
  have isNew : [] ++ new' = new := by
    rw [List.nil_append, List.append_cancel_left same]
  rw [isNew] at completes
  have valid₁ : v₁.bpb.Valid := by
    rw [written.bpb]
    exact valid
  have away' := completes.wrote.away away
  have away₁ : v₁.Away fd.fatEntry (l ++ new) := away_of_setFileSize valid₁ away'
  refine ⟨fd', _, new, writeEq, ⟨?_, ?_, ?_, ?_⟩, completes.wrote, completes.fatEntry, ?_⟩
  · rw [completes.fatEntry, firstEq, clusterEq, offEq]
    exact ends'.setFileSize valid₁ away₁ _
  · rw [offEq]
    rcases moved with positive | ⟨none, unmoved⟩
    · exact .inl positive
    · rw [unmoved, none]
      exact tail.moved
  · rw [completes.wrOff, tail.wrOff]
  · rw [completes.fatEntry, completes.fileSize, completes.wrOff, tail.wrOff]
  · rw [free, free_sameFat valid₁ (sameFat_setFileSize away₁.data _)]

/-- The first call for an empty file, if it fits. -/
theorem append_first (valid : v.bpb.Valid) (none : v.firstCluster e = 0) (away : v.Away e [])
    (fits : FitsFirst v.bytesPerCluster len) (agrees : ∀ j < len, content j = buf j)
    (room : max (v.numCluster len) 1 ≤ v.free.length) :
    ∃ fd' v' new, v.write (.make e) buf len = .ok (len, fd', v') ∧
      Appends v v' content (.make e) fd' [] new 0 len 0 := by
  have opened : Opened v (.make e) [] 0 := .empty rfl rfl none
  have positive : 0 < v.bytesPerCluster := valid.bytesPerCluster_pos
  have some : v.free ≠ [] := by
    intro nil
    rw [nil, List.length_nil] at room
    omega
  have enough : len ≤ v.free.length * v.bytesPerCluster := by
    have few : v.numCluster len ≤ v.free.length := (Nat.le_max_left _ _).trans room
    exact (numCluster_mul v positive len).trans (Nat.mul_le_mul_right _ few)
  obtain ⟨fd', v', k, writeEq, stored, entryEq⟩ :=
    stored_of_first valid none away fits agrees some enough
  have filled := stored.filled
  have bytes := filled.bytesPerCluster
  rcases write_cases valid opened away buf len with
    ⟨returned, fd₁, v₁, new, i', writeEq₁, completes, -, -⟩ | ⟨stops, -⟩
  · rw [writeEq] at writeEq₁
    cases writeEq₁
    have wrote := completes.wrote
    have chain := wrote.chain
    have fileEq : (FileDescriptor.make e).fatEntry = fd'.fatEntry := entryEq.symm
    rw [fileEq] at chain
    have isNew : new = v.free.take k := by
      rw [← List.nil_append new]
      exact chain.unique filled.cursor.chain
    refine ⟨fd', v', new, writeEq, ⟨⟨?_, ?_, ?_, ?_⟩, wrote, entryEq, ?_⟩⟩
    · rw [List.nil_append, isNew, Nat.zero_add]
      refine ⟨?_, ?_, filled.bytes⟩
      · rw [filled.length_take]
        exact filled.cursor
      · rw [filled.length_take, bytes]
        exact filled.position
    · rw [Nat.zero_add]
      exact stored.moved
    · rw [Nat.zero_add]
      exact stored.wrOff
    · rw [Nat.zero_add]
      exact stored.fileSize
    · rw [filled.free, isNew, List.take_append_drop]
  · rw [stops] at writeEq
    cases writeEq

/-! ## While other files are written -/

/-- The entry of one file lies in no cluster of another. -/
theorem Sound.apart_entry (sound : v.Sound) (isEntry : v.Entry e) (isOther : v.Entry e')
    (file : ¬ v.IsDirectory e') (own : v.OwnChain e' l) {x a : Nat} (member : x ∈ l)
    (inside : v.InCluster x a) : ¬ Assigned e a := by
  obtain ⟨d, dir, isDirectory, chain, live⟩ := isEntry
  obtain ⟨y, inChain, inCluster⟩ := mem_slots.mp live.member
  have kept := sound_iff.mp sound
  intro assigned
  rw [Assigned, directoryEntrySize] at assigned
  have here := inCluster_of_mem_clusterSlots inCluster (k := a - e) (by rw [directoryEntrySize]; omega)
  rw [Nat.add_sub_of_le (by omega)] at here
  have hasX : v.bpb.HasCluster x := by
    rcases own with ⟨-, rfl⟩ | ownChain
    · exact absurd member List.not_mem_nil
    · exact ownChain.inside x member
  have same := eq_of_inCluster sound.valid hasX (chain.inside y inChain) inside here
  exact isDirectory.apart kept isOther file own chain y inChain (same ▸ member)

/-- A file and the descriptor at its end are left alone. -/
theorem Tail.keeps (sound : v.Sound) (isEntry : v.Entry e) (isOther : v.Entry fd.fatEntry)
    (file : ¬ v.IsDirectory fd.fatEntry) (ne : fd.fatEntry ≠ e) (bpb : v'.bpb = v.bpb)
    (isolated : Isolated v v' e m) (tail : Tail v content fd l p) : Tail v' content fd l p := by
  have fields := isolated.fields fd.fatEntry isOther ne
  have chain := tail.ends.cursor.chain
  have owner : v.Owner (some fd.fatEntry) (v.firstCluster fd.fatEntry) :=
    .entry isOther (ne_zero_of_has chain.has_first)
  have other : some fd.fatEntry ≠ some e := fun same => ne (Option.some.inj same)
  have firstEq : v'.firstCluster fd.fatEntry = v.firstCluster fd.fatEntry :=
    firstCluster_congr fields
  have sizeEq : v'.fileSize fd.fatEntry = v.fileSize fd.fatEntry := by
    apply Mem.load_congr
    intro k lt
    rw [Nat.add_assoc]
    exact fields _ (by rw [directoryEntrySize]; omega)
  refine ⟨?_, tail.moved, tail.wrOff, sizeEq.trans tail.fileSize⟩
  rw [firstEq]
  refine tail.ends.keeps bpb (isolated.chain owner other chain) fun x member a inside => ?_
  exact isolated.content owner other chain x member a inside
    (sound.apart_entry isEntry isOther file tail.ownChain member inside)

/-- What has been written is read back. -/
theorem Tail.readAll (valid : v.bpb.Valid) (tail : Tail v content fd l p) (small : p < 2 ^ 32)
    (chunks : List Nat) :
    ∃ fd', v.readAll (.make fd.fatEntry) chunks = .ok (content.bytes 0 (min chunks.sum p), fd') := by
  have size : v.fileSize (FileDescriptor.make fd.fatEntry).fatEntry = p := by
    rw [← Nat.mod_eq_of_lt small]
    exact tail.fileSize
  have inside := tail.ends.inside
  have covers : 0 + min chunks.sum (v.fileSize (FileDescriptor.make fd.fatEntry).fatEntry - 0) ≤
      l.length * v.bytesPerCluster := by
    rw [size]
    omega
  have own : v.OwnChain (FileDescriptor.make fd.fatEntry).fatEntry l := tail.ownChain
  obtain ⟨fd', readEq⟩ := readAll_eq valid own (hasRead_make v fd.fatEntry l) (Nat.zero_le _)
    chunks covers
  refine ⟨fd', ?_⟩
  rw [readEq, size, Nat.sub_zero]
  congr 2
  apply Mem.bytes_congr
  intro j lt
  exact tail.ends.bytes (0 + j) (by omega)

/-- The chain is as long as the size needs it. -/
theorem Tail.length_eq (valid : v.bpb.Valid) (tail : Tail v content fd l p) :
    l.length = max (v.numCluster p) 1 := by
  have positive : 0 < v.bytesPerCluster := valid.bytesPerCluster_pos
  have least : v.numCluster p ≤ l.length := numCluster_le v tail.ends.inside
  have nonempty := tail.ends.length_pos
  apply Nat.le_antisymm
  · by_contra longer
    have few : max (v.numCluster p) 1 ≤ l.length - 1 := by omega
    have covered := (numCluster_mul v positive p).trans
      (Nat.mul_le_mul_right v.bytesPerCluster ((Nat.le_max_left _ 1).trans few))
    have one := Nat.mul_le_mul_right v.bytesPerCluster ((Nat.le_max_right (v.numCluster p) 1).trans few)
    have position := tail.ends.position
    have moved := tail.moved
    omega
  · omega

end Volume

end Mikanos.Fat
