import Mikanos.Usb.DescriptorSafety

/-!
# Which interface is selected

In a well-formed configuration the descriptors lie one after another up to the end of the
buffer, and behind each interface there are as many endpoints as it says.  The first interface
with a boot protocol of HID is selected, and the endpoints entered are those up to the
next interface.
-/

namespace Mikanos.Usb

open Memory

namespace DescriptorBuffer

variable (b : DescriptorBuffer)

/-- The descriptors from one on fill the rest of the buffer. -/
inductive Laid : Nat → List Nat → Prop
  | nil {p : Nat} : (p : Int) = b.len → Laid p []
  | cons {p : Nat} {descs : List Nat} : 2 ≤ (b.bytes p).toNat → (b.after p : Int) ≤ b.len →
      Laid (b.after p) descs → Laid p (p :: descs)

def isInterface (desc : Nat) : Bool :=
  b.bytes (desc + 1) = InterfaceDescriptor.kType

def isEndpoint (desc : Nat) : Bool :=
  b.bytes (desc + 1) = EndpointDescriptor.kType

/-- The endpoint descriptors among descriptors, before the next interface. -/
def endpointsIn (descs : List Nat) : List Nat :=
  (descs.takeWhile fun desc => !b.isInterface desc).filter b.isEndpoint

/-- A configuration descriptor, followed by descriptors with the right numbers of endpoints. -/
structure WellFormed (descs : List Nat) : Prop where
  isConfiguration : b.bytes 1 = ConfigurationDescriptor.kType
  laid : b.Laid 0 (0 :: descs)
  counted : ∀ before ifDesc behind, descs = before ++ ifDesc :: behind → b.isInterface ifDesc →
    (b.endpointsIn behind).length = (b.bytes (ifDesc + 4)).toNat ∧ (b.endpointsIn behind).length ≤ 16

/-- An interface of a boot keyboard or a boot mouse. -/
def Supported (desc : Nat) : Prop :=
  b.isInterface desc ∧ (b.bootKind desc).isSome

/-- What an entry of `ep_configs_` has to say about a descriptor. -/
structure Describes (epDesc : Nat) (conf : EndpointConfig) : Prop where
  number : conf.epId.number = (b.bytes (epDesc + 2)).toNat % 16
  isIn : conf.epId.isIn = decide (128 ≤ (b.bytes (epDesc + 2)).toNat)
  epType : conf.epType = .ofBits ((b.bytes (epDesc + 3)).toNat % 4)
  maxPacketSize : conf.maxPacketSize = (b.bytes (epDesc + 4)).toNat + 256 * (b.bytes (epDesc + 5)).toNat
  interval : conf.interval = (b.bytes (epDesc + 6)).toNat

/-- The device is configured for a driver, and for the endpoints of its interface. -/
structure ConfiguredFor (d d' : InitDevice) (driver : HIDDriver) (endpoints : List Nat) : Prop where
  numEpConfigs : d'.numEpConfigs = endpoints.length
  epConfigs : ∀ i epDesc, endpoints[i]? = some epDesc → b.Describes epDesc (d'.epConfigs i)
  classDrivers : ∀ epDesc ∈ endpoints,
    d'.classDrivers ((b.bytes (epDesc + 2)).toNat % 16) = some driver
  otherDrivers : ∀ n, (∀ epDesc ∈ endpoints, n ≠ (b.bytes (epDesc + 2)).toNat % 16) →
    d'.classDrivers n = d.classDrivers n
  initializePhase : d'.initializePhase = 3
  requests : d'.requests = d.requests ++ [setConfigurationData (b.bytes 5)]

variable {b}

/-! ## Endpoints -/

/-- Endpoints are entered one after another. -/
def addEndpoints (b : DescriptorBuffer) (driver : HIDDriver) (d : InitDevice) (endpoints : List Nat) :
    InitDevice :=
  endpoints.foldl (fun d epDesc => addEndpoint d driver (b.endpointConfig epDesc)) d

theorem addEndpoints_append (driver : HIDDriver) (d : InitDevice) (first last : List Nat) :
    addEndpoints b driver d (first ++ last) = addEndpoints b driver (addEndpoints b driver d first) last :=
  List.foldl_append

theorem describes_endpointConfig (epDesc : Nat) : b.Describes epDesc (b.endpointConfig epDesc) where
  number := by
    change (2 * _ + (decide _).toNat) / 2 = _
    have bit := Bool.toNat_lt (decide (128 ≤ (b.bytes (epDesc + 2)).toNat))
    omega
  isIn := by
    change decide ((2 * _ + (decide _).toNat) % 2 = 1) = _
    by_cases isIn : 128 ≤ (b.bytes (epDesc + 2)).toNat
    · rw [decide_eq_true isIn, decide_eq_true_eq, Bool.toNat_true]
      omega
    · rw [decide_eq_false isIn, decide_eq_false_iff_not, Bool.toNat_false]
      omega
  epType := by
    change EndpointType.ofBits _ = EndpointType.ofBits _
    rw [EndpointType.ofBits, EndpointType.ofBits, Nat.mod_mod]
  maxPacketSize := rfl
  interval := rfl

theorem number_endpointConfig (epDesc : Nat) :
    (b.endpointConfig epDesc).epId.number = (b.bytes (epDesc + 2)).toNat % 16 :=
  (describes_endpointConfig epDesc).number

/-- What endpoints change, and what they leave. -/
structure Added (b : DescriptorBuffer) (driver : HIDDriver) (d d' : InitDevice) (endpoints : List Nat) :
    Prop where
  numEpConfigs : d'.numEpConfigs = d.numEpConfigs + endpoints.length
  epConfigs : ∀ i epDesc, endpoints[i]? = some epDesc →
    d'.epConfigs (d.numEpConfigs + i) = b.endpointConfig epDesc
  classDrivers : ∀ epDesc ∈ endpoints,
    d'.classDrivers ((b.bytes (epDesc + 2)).toNat % 16) = some driver
  otherDrivers : ∀ n, (∀ epDesc ∈ endpoints, n ≠ (b.bytes (epDesc + 2)).toNat % 16) →
    d'.classDrivers n = d.classDrivers n
  requests : d'.requests = d.requests

theorem added_addEndpoints (driver : HIDDriver) (d : InitDevice) (endpoints : List Nat) :
    Added b driver d (addEndpoints b driver d endpoints) endpoints := by
  induction endpoints using List.reverseRecOn with
  | nil => exact ⟨rfl, fun _ _ none => absurd none (by simp), fun _ member => absurd member List.not_mem_nil,
      fun _ _ => rfl, rfl⟩
  | append_singleton endpoints last ih =>
      have last_eq : addEndpoints b driver d (endpoints ++ [last]) =
          addEndpoint (addEndpoints b driver d endpoints) driver (b.endpointConfig last) :=
        addEndpoints_append driver d endpoints [last]
      rw [last_eq]
      constructor
      · rw [addEndpoint_numEpConfigs, ih.numEpConfigs, List.length_append, List.length_singleton,
          Nat.add_assoc]
      · intro i epDesc member
        change Function.update _ _ _ _ = _
        rw [ih.numEpConfigs]
        by_cases isLast : i = endpoints.length
        · subst isLast
          rw [List.getElem?_concat_length] at member
          cases member
          rw [Function.update_self]
        · rw [Function.update_of_ne (by omega)]
          apply ih.epConfigs
          rw [List.getElem?_append_left] at member
          · exact member
          · have inRange := (List.getElem?_eq_some_iff.mp member).1
            rw [List.length_append, List.length_singleton] at inRange
            omega
      · intro epDesc member
        change Function.update _ _ _ _ = _
        rw [number_endpointConfig]
        by_cases same : (b.bytes (epDesc + 2)).toNat % 16 = (b.bytes (last + 2)).toNat % 16
        · rw [same, Function.update_self]
        · rw [Function.update_of_ne same]
          rcases List.mem_append.mp member with old | new
          · exact ih.classDrivers epDesc old
          · cases List.mem_singleton.mp new
            exact absurd rfl same
      · intro n others
        change Function.update _ _ _ _ = _
        rw [number_endpointConfig, Function.update_of_ne
          (others last (List.mem_append_right _ (List.mem_singleton_self last)))]
        exact ih.otherDrivers n fun epDesc member => others epDesc (List.mem_append_left _ member)
      · exact ih.requests

theorem endpointsIn_cons (desc : Nat) (descs : List Nat) :
    b.endpointsIn (desc :: descs) =
      if b.isInterface desc then []
      else if b.isEndpoint desc then desc :: b.endpointsIn descs
      else b.endpointsIn descs := by
  rw [endpointsIn, List.takeWhile_cons]
  by_cases interface : b.isInterface desc = true
  · simp [interface]
  · by_cases endpoint : b.isEndpoint desc = true
    · simp [interface, endpoint, endpointsIn]
    · simp [interface, endpoint, endpointsIn]

/-! ## The loops on a well-formed configuration -/

/-- Everything may be read. -/
abbrev Anywhere (_ : Nat) : Prop :=
  True

theorem yields_logHID_anywhere (hidDesc : Nat) : (b.logHID hidDesc).Yields Anywhere () := by
  have listed (count i : Nat) : (b.logClassDescriptors hidDesc count i).Yields Anywhere () := by
    induction count generalizing i with
    | zero => exact Reading.yields_pure.mpr rfl
    | succ count ih => simp only [logClassDescriptors, Reading.yields_bind, yields_byte, true_and,
        exists_eq_left, ih]
  simp only [logHID, Reading.yields_bind, yields_byte, true_and, exists_eq_left, listed]

/-- The descriptor behind another one. -/
theorem Laid.next {p : Nat} {descs : List Nat} (laid : b.Laid p (p :: descs)) :
    descs = [] ∧ ¬ b.Inside (b.after p) ∨
      ∃ rest, descs = b.after p :: rest ∧ b.Inside (b.after p) ∧ b.Laid (b.after p) (b.after p :: rest) := by
  cases laid with
  | cons _ _ rest =>
      cases rest with
      | nil atEnd => exact .inl ⟨rfl, by rw [Inside, atEnd]; exact lt_irrefl _⟩
      | cons long fits rest =>
          refine .inr ⟨_, rfl, ?_, .cons long fits rest⟩
          have behind : b.after (b.after p) = b.after p + (b.bytes (b.after p)).toNat := rfl
          rw [behind] at fits
          rw [Inside]
          omega

/-- The inner loop enters the endpoints up to the next interface. -/
theorem collectEndpoints_of_laid {driver : HIDDriver} {ifDesc rounds p : Nat} {d : InitDevice}
    {behind : List Nat} (laid : b.Laid p (p :: behind))
    (count : (b.bytes (ifDesc + 4)).toNat = d.numEpConfigs + (b.endpointsIn behind).length)
    (small : (b.bytes (ifDesc + 4)).toNat ≤ 16) (enough : behind.length < rounds) :
    (b.collectEndpoints driver ifDesc rounds p d).Yields Anywhere
      (addEndpoints b driver d (b.endpointsIn behind)) := by
  induction behind generalizing rounds p d with
  | nil =>
      rcases Nat.exists_eq_add_of_lt enough with ⟨more, rfl⟩
      exact (yields_collectEndpoints_succ trivial).mpr (.inl ⟨by rw [count]; exact lt_irrefl _, rfl⟩)
  | cons desc behind ih =>
      rcases Nat.exists_eq_add_of_le' (Nat.one_le_of_lt enough) with ⟨rounds, rfl⟩
      rw [yields_collectEndpoints_succ trivial]
      rcases laid.next with ⟨nothing, -⟩ | ⟨_, found, inside, laid'⟩
      · cases nothing
      cases found
      rw [List.length_cons] at enough
      by_cases done : d.numEpConfigs < (b.bytes (ifDesc + 4)).toNat
      · refine .inr ⟨done, trivial, inside, trivial, ?_⟩
        have noInterface : ¬ b.isInterface (b.after p) = true := by
          intro interface
          rw [endpointsIn_cons, if_pos interface, List.length_nil] at count
          omega
        rw [endpointsIn_cons, if_neg noInterface] at count ⊢
        by_cases endpoint : b.isEndpoint (b.after p) = true
        · rw [if_pos endpoint] at count ⊢
          rw [List.length_cons] at count
          refine .inl ⟨of_decide_eq_true endpoint, ⟨trivial, trivial, trivial, trivial, trivial⟩,
            by omega, ?_⟩
          refine ih laid' ?_ (by omega)
          rw [addEndpoint_numEpConfigs]
          omega
        · rw [if_neg endpoint] at count ⊢
          exact .inr ⟨fun type => endpoint (decide_eq_true type), fun _ => yields_logHID_anywhere _,
            ih laid' count (by omega)⟩
      · have none : b.endpointsIn (b.after p :: behind) = [] := List.length_eq_zero_iff.mp (by omega)
        rw [none]
        exact .inl ⟨done, rfl⟩

/-- `Next<InterfaceDescriptor>` finds the first interface. -/
theorem nextOf_of_laid {rounds p : Nat} {descs : List Nat} (laid : b.Laid p (p :: descs))
    (enough : descs.length < rounds) :
    (∀ desc ∈ descs, ¬ b.isInterface desc = true) ∧
        (b.nextOf InterfaceDescriptor.kType rounds p).Yields Anywhere none ∨
      ∃ before ifDesc behind, descs = before ++ ifDesc :: behind ∧
        (∀ desc ∈ before, ¬ b.isInterface desc = true) ∧ b.isInterface ifDesc = true ∧
        b.Laid ifDesc (ifDesc :: behind) ∧
        (b.nextOf InterfaceDescriptor.kType rounds p).Yields Anywhere (some ifDesc) := by
  induction descs generalizing rounds p with
  | nil =>
      rcases Nat.exists_eq_add_of_le' (Nat.one_le_of_lt enough) with ⟨rounds, rfl⟩
      rcases laid.next with ⟨-, outside⟩ | ⟨_, found, -⟩
      · exact .inl ⟨fun _ member => absurd member List.not_mem_nil,
          yields_nextOf_succ.mpr ⟨trivial, .inl ⟨outside, rfl⟩⟩⟩
      · cases found
  | cons desc descs ih =>
      rcases Nat.exists_eq_add_of_le' (Nat.one_le_of_lt enough) with ⟨rounds, rfl⟩
      rcases laid.next with ⟨nothing, -⟩ | ⟨_, found, inside, laid'⟩
      · cases nothing
      cases found
      rw [List.length_cons] at enough
      by_cases interface : b.isInterface (b.after p) = true
      · exact .inr ⟨[], _, _, rfl, fun _ member => absurd member List.not_mem_nil, interface, laid',
          yields_nextOf_succ.mpr ⟨trivial, .inr ⟨inside, trivial, .inl ⟨of_decide_eq_true interface, rfl⟩⟩⟩⟩
      · have goesOn {n : Option Nat}
            (rest : (b.nextOf InterfaceDescriptor.kType rounds (b.after p)).Yields Anywhere n) :
            (b.nextOf InterfaceDescriptor.kType (rounds + 1) p).Yields Anywhere n :=
          yields_nextOf_succ.mpr ⟨trivial,
            .inr ⟨inside, trivial, .inr ⟨fun type => interface (decide_eq_true type), rest⟩⟩⟩
        rcases @ih rounds (b.after p) laid' (by omega) with
          ⟨none, rest⟩ | ⟨before, ifDesc, behind, rfl, none, isInterface, laid', rest⟩
        · exact .inl ⟨List.forall_mem_cons.mpr ⟨interface, none⟩, goesOn rest⟩
        · exact .inr ⟨_ :: before, ifDesc, behind, rfl, List.forall_mem_cons.mpr ⟨interface, none⟩,
            isInterface, laid', goesOn rest⟩

/-- What the search is to find among descriptors. -/
inductive Selects (b : DescriptorBuffer) (heap : DriverHeap) (d : InitDevice) (descs : List Nat) :
    InitDevice × Option HIDDriver → Prop
  | nothing : (∀ desc ∈ descs, ¬ b.Supported desc) → Selects b heap d descs (d, none)
  | interface {before behind : List Nat} {ifDesc allocPtr address : Nat} {kind : DriverKind} :
      descs = before ++ ifDesc :: behind → (∀ desc ∈ before, ¬ b.Supported desc) →
      b.isInterface ifDesc = true → b.bootKind ifDesc = some kind →
      allocMem heap.memoryPool d.allocPtr ⟨heap.size kind, 0, 0⟩ = (allocPtr, some address) →
      Selects b heap d descs
        (addEndpoints b ⟨address, kind, b.bytes (ifDesc + 2)⟩ { d with allocPtr, numEpConfigs := 0 }
          (b.endpointsIn behind), some ⟨address, kind, b.bytes (ifDesc + 2)⟩)

/-- Interfaces that are not supported are passed over. -/
theorem Selects.pass {heap : DriverHeap} {d : InitDevice} {before behind : List Nat} {ifDesc : Nat}
    {result : InitDevice × Option HIDDriver} (selects : Selects b heap d behind result)
    (absent : ∀ desc ∈ before, ¬ b.isInterface desc = true) (unsupported : b.bootKind ifDesc = none) :
    Selects b heap d (before ++ ifDesc :: behind) result := by
  have passed : ∀ desc ∈ before ++ [ifDesc], ¬ b.Supported desc := by
    rintro desc member ⟨interface, supported⟩
    rcases List.mem_append.mp member with member | member
    · exact absent desc member interface
    · rw [List.mem_singleton.mp member, unsupported] at supported
      cases supported
  rw [List.append_cons]
  cases selects with
  | nothing absent' =>
      refine .nothing fun desc member => ?_
      rcases List.mem_append.mp member with member | member
      · exact passed desc member
      · exact absent' desc member
  | @interface before' behind' ifDesc' allocPtr address kind split absent' interface supported allocated =>
      refine @Selects.interface b heap d _ (before ++ [ifDesc] ++ before') _ _ _ _ _ ?_ ?_ interface
        supported allocated
      · rw [split, List.append_assoc _ before']
      · intro desc member
        rcases List.mem_append.mp member with member | member
        · exact passed desc member
        · exact absent' desc member

/-- The outer loop selects the first interface that is supported. -/
theorem searchInterface_of_laid {heap : DriverHeap} {d : InitDevice} {rounds left p : Nat}
    {descs : List Nat} (laid : b.Laid p (p :: descs)) (room : heap.HasRoom d.allocPtr)
    (counted : ∀ before ifDesc behind, descs = before ++ ifDesc :: behind → b.isInterface ifDesc = true →
      (b.endpointsIn behind).length = (b.bytes (ifDesc + 4)).toNat ∧
        (b.endpointsIn behind).length ≤ 16)
    (enough : descs.length < rounds) (enough' : descs.length < left) :
    ∃ result, (b.searchInterface heap rounds left p d).Yields Anywhere result ∧
      Selects b heap d descs result := by
  induction left generalizing p descs with
  | zero => exact absurd enough' (Nat.not_lt_zero _)
  | succ left ih =>
      rcases nextOf_of_laid laid enough with
        ⟨absent, found⟩ | ⟨before, ifDesc, behind, rfl, absent, interface, laid', found⟩
      · exact ⟨(d, none), yields_searchInterface_succ.mpr ⟨_, found, .inl ⟨rfl, rfl⟩⟩,
          .nothing fun desc member supported => absent desc member supported.1⟩
      · rw [List.length_append, List.length_cons] at enough enough'
        have visits {result : InitDevice × Option HIDDriver}
            (visits : Visits b heap Anywhere rounds left d ifDesc result) :
            (b.searchInterface heap rounds (left + 1) p d).Yields Anywhere result :=
          yields_searchInterface_succ.mpr
            ⟨_, found, .inr ⟨ifDesc, rfl, ⟨trivial, trivial, trivial⟩, visits⟩⟩
        cases supported : b.bootKind ifDesc with
        | none =>
            have counted' : ∀ before' ifDesc' behind', behind = before' ++ ifDesc' :: behind' →
                b.isInterface ifDesc' = true →
                (b.endpointsIn behind').length = (b.bytes (ifDesc' + 4)).toNat ∧
                  (b.endpointsIn behind').length ≤ 16 := by
              rintro before' ifDesc' behind' rfl
              exact counted (before ++ ifDesc :: before') ifDesc' behind' (by simp)
            rcases ih laid' counted' (by omega) (by omega) with ⟨result, rest, selects⟩
            exact ⟨result, visits (.unsupported supported rest), selects.pass absent supported⟩
        | some kind =>
            cases allocated : allocMem heap.memoryPool d.allocPtr ⟨heap.size kind, 0, 0⟩ with
            | mk allocPtr new =>
                have hasRoom := room kind
                rw [allocated] at hasRoom
                rcases Option.isSome_iff_exists.mp hasRoom with ⟨address, rfl⟩
                rcases counted before ifDesc behind rfl interface with ⟨count, small⟩
                have collected := @collectEndpoints_of_laid b ⟨address, kind, b.bytes (ifDesc + 2)⟩
                  ifDesc rounds ifDesc { d with allocPtr, numEpConfigs := 0 } behind laid'
                  (by rw [← count, Nat.zero_add]) (count ▸ small) (by omega)
                exact ⟨_, visits (.selected supported allocated trivial collected rfl),
                  .interface rfl (fun desc member supported => absent desc member supported.1) interface
                    supported allocated⟩

/-! ## `InitializePhase2` -/

/-- The first supported interface is selected, if there is one. -/
inductive Configures (b : DescriptorBuffer) (heap : DriverHeap) (descs : List Nat) (d d' : InitDevice) :
    Prop
  | nothing : (∀ desc ∈ descs, ¬ b.Supported desc) → d' = d → Configures b heap descs d d'
  | interface {before behind : List Nat} {ifDesc allocPtr address : Nat} {kind : DriverKind} :
      descs = before ++ ifDesc :: behind → (∀ desc ∈ before, ¬ b.Supported desc) →
      b.isInterface ifDesc = true → b.bootKind ifDesc = some kind →
      allocMem heap.memoryPool d.allocPtr ⟨heap.size kind, 0, 0⟩ = (allocPtr, some address) →
      b.ConfiguredFor d d' ⟨address, kind, b.bytes (ifDesc + 2)⟩ (b.endpointsIn behind) →
      Configures b heap descs d d'

/-- On a well-formed configuration `InitializePhase2` selects the right interface. -/
theorem configures_of_wellFormed {descs : List Nat} {heap : DriverHeap} {d : InitDevice}
    (wellFormed : b.WellFormed descs) (room : heap.HasRoom d.allocPtr) :
    ∃ rounds d', (b.initializePhase2 heap rounds d).Yields Anywhere (d', .success) ∧
      Configures b heap descs d d' := by
  rcases searchInterface_of_laid wellFormed.laid room wellFormed.counted (Nat.lt_succ_self _)
    (Nat.lt_succ_self _) with ⟨result, search, selects⟩
  cases selects with
  | nothing absent =>
      exact ⟨_, d, yields_initializePhase2_of_none trivial wellFormed.isConfiguration search,
        .nothing absent rfl⟩
  | @interface before behind ifDesc allocPtr address kind split absent interface supported allocated =>
      have added := @added_addEndpoints b ⟨address, kind, b.bytes (ifDesc + 2)⟩
        { d with allocPtr, numEpConfigs := 0 } (b.endpointsIn behind)
      refine ⟨_, _, yields_initializePhase2_of_some trivial wellFormed.isConfiguration search trivial,
        .interface split absent interface supported allocated ?_⟩
      constructor
      · exact added.numEpConfigs.trans (Nat.zero_add _)
      · intro i epDesc member
        have entry := added.epConfigs i epDesc member
        rw [Nat.zero_add] at entry
        change b.Describes epDesc (InitDevice.epConfigs _ i)
        rw [entry]
        exact describes_endpointConfig epDesc
      · exact added.classDrivers
      · exact added.otherDrivers
      · rfl
      · exact congrArg (· ++ [setConfigurationData (b.bytes 5)]) added.requests

/-- The configuration of a keyboard with one endpoint. -/
def keyboardConfiguration : DescriptorBuffer where
  bytes := fun i => [9, 2, 34, 0, 1, 1, 0, 160, 50, 9, 4, 0, 0, 1, 3, 1, 1, 0,
    9, 33, 17, 1, 0, 1, 34, 63, 0, 7, 5, 129, 3, 8, 0, 10].getD i 0
  len := 34

theorem wellFormed_keyboardConfiguration : keyboardConfiguration.WellFormed [9, 18, 27] where
  isConfiguration := rfl
  laid := .cons (by decide) (by decide) (.cons (by decide) (by decide) (.cons (by decide) (by decide)
    (.cons (by decide) (by decide) (.nil rfl))))
  counted := by
    rintro before ifDesc behind split interface
    match before, split with
    | [], split =>
        cases split
        decide
    | [_], split =>
        cases split
        exact absurd interface (by decide)
    | [_, _], split =>
        cases split
        exact absurd interface (by decide)
    | _ :: _ :: _ :: _, split => simp at split

theorem configures_keyboardConfiguration :
    ∃ rounds d', (keyboardConfiguration.initializePhase2 plainHeap rounds (.configuring 0x100000)).Yields
        Anywhere (d', .success) ∧
      Configures keyboardConfiguration plainHeap [9, 18, 27] (.configuring 0x100000) d' :=
  configures_of_wellFormed wellFormed_keyboardConfiguration fun kind => by
    cases kind <;> decide

end DescriptorBuffer

end Mikanos.Usb
