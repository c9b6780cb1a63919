import Mikanos.Usb.Descriptor

/-!
# Which bytes are parsed safely

The parser goes from descriptor to descriptor by the lengths that they begin with, and looks
at each before it knows that it has been received.  It comes to an end inside the buffer exactly
if the descriptors it goes through are there, none of those it passes has length 0, and
the interface that it selects has no more endpoints than there is room for, all of them
received.
-/

namespace Mikanos.Usb

open Memory

namespace DescriptorBuffer

variable (b : DescriptorBuffer)

/-- The byte has been received. -/
def Inside (i : Nat) : Prop :=
  (i : Int) < b.len

instance (i : Nat) : Decidable (b.Inside i) :=
  inferInstanceAs (Decidable ((i : Int) < b.len))

/-- Where the descriptor behind another one begins. -/
def after (p : Nat) : Nat :=
  p + (b.bytes p).toNat

/-- The driver for an interface: only the boot protocols of HID are supported. -/
def bootKind (ifDesc : Nat) : Option DriverKind :=
  if b.bytes (ifDesc + 5) = 3 ∧ b.bytes (ifDesc + 6) = 1 then
    if b.bytes (ifDesc + 7) = 1 then some .keyboard
    else if b.bytes (ifDesc + 7) = 2 then some .mouse
    else none
  else none

/-- What an endpoint descriptor says. -/
def endpointConfig (epDesc : Nat) : EndpointConfig where
  epId := .ofNumber ((b.bytes (epDesc + 2)).toNat % 16) (128 ≤ (b.bytes (epDesc + 2)).toNat)
  epType := .ofBits (b.bytes (epDesc + 3)).toNat
  maxPacketSize := (b.bytes (epDesc + 4)).toNat + 256 * (b.bytes (epDesc + 5)).toNat
  interval := (b.bytes (epDesc + 6)).toNat

/-- Behind a descriptor, a number of endpoint descriptors can be collected. -/
inductive EndpointsFrom : Nat → Nat → Prop
  | done (p : Nat) : EndpointsFrom p 0
  | endpoint {p n : Nat} : b.Inside (b.after p + 6) →
      b.bytes (b.after p + 1) = EndpointDescriptor.kType → EndpointsFrom (b.after p) n →
      EndpointsFrom p (n + 1)
  | hid {p n : Nat} : b.Inside (b.after p + 5 + 3 * (b.bytes (b.after p + 5)).toNat) →
      b.bytes (b.after p + 1) = HIDDescriptor.kType → EndpointsFrom (b.after p) (n + 1) →
      EndpointsFrom p (n + 1)
  | other {p n : Nat} : b.Inside (b.after p + 1) →
      b.bytes (b.after p + 1) ≠ EndpointDescriptor.kType →
      b.bytes (b.after p + 1) ≠ HIDDescriptor.kType → EndpointsFrom (b.after p) (n + 1) →
      EndpointsFrom p (n + 1)

/-- The endpoints of an interface: no more than there is room for, and all there. -/
def EndpointsOf (ifDesc : Nat) : Prop :=
  (b.bytes (ifDesc + 4)).toNat ≤ 16 ∧ b.EndpointsFrom ifDesc (b.bytes (ifDesc + 4)).toNat

/-- Behind a descriptor, an interface can be searched for; a driver for it fits into the pool. -/
inductive SearchableFrom (heap : DriverHeap) (allocPtr : Nat) : Nat → Prop
  | nothing {p : Nat} : ¬ b.Inside (b.after p) → SearchableFrom heap allocPtr p
  | other {p : Nat} : b.Inside (b.after p + 1) →
      b.bytes (b.after p + 1) ≠ InterfaceDescriptor.kType → SearchableFrom heap allocPtr (b.after p) →
      SearchableFrom heap allocPtr p
  | unsupported {p : Nat} : b.Inside (b.after p + 7) →
      b.bytes (b.after p + 1) = InterfaceDescriptor.kType → b.bootKind (b.after p) = none →
      SearchableFrom heap allocPtr (b.after p) → SearchableFrom heap allocPtr p
  | selected {p : Nat} {kind : DriverKind} : b.Inside (b.after p + 7) →
      b.bytes (b.after p + 1) = InterfaceDescriptor.kType → b.bootKind (b.after p) = some kind →
      (allocMem heap.memoryPool allocPtr ⟨heap.size kind, 0, 0⟩).2.isSome →
      b.EndpointsOf (b.after p) → SearchableFrom heap allocPtr p

/-- The buffer begins with two bytes, and if these are those of a configuration descriptor, an
interface can be searched for behind it. -/
def WellBehaved (heap : DriverHeap) (allocPtr : Nat) : Prop :=
  b.Inside 1 ∧ (b.bytes 1 = ConfigurationDescriptor.kType → b.SearchableFrom heap allocPtr 0)

variable {b}

theorem Inside.mono {i j : Nat} (inside : b.Inside j) (le : i ≤ j) : b.Inside i := by
  rw [Inside] at inside ⊢
  omega

theorem after_of_zero {p : Nat} (zero : b.bytes p = 0) : b.after p = p := by
  rw [after, zero]
  rfl

/-- The search does not get past a descriptor of length 0: it must be the interface that is
selected. -/
theorem SearchableFrom.selected_of_zero {heap : DriverHeap} {allocPtr p : Nat}
    (searchable : b.SearchableFrom heap allocPtr p) (zero : b.bytes p = 0) (inside : b.Inside p) :
    b.bytes (p + 1) = InterfaceDescriptor.kType ∧ (b.bootKind p).isSome := by
  have same := after_of_zero zero
  induction searchable with
  | nothing outside => exact absurd (same.symm ▸ inside) outside
  | other _ _ _ ih =>
      rw [same] at ih
      exact ih zero inside same
  | unsupported _ _ _ _ ih =>
      rw [same] at ih
      exact ih zero inside same
  | selected _ isInterface supported =>
      rw [same] at isInterface supported
      exact ⟨isInterface, Option.isSome_iff_exists.mpr ⟨_, supported⟩⟩

/-! ## Single reads -/

section

variable {readable : Nat → Prop}

@[simp]
theorem yields_byte {i : Nat} {c : UInt8} :
    (b.byte i).Yields readable c ↔ readable i ∧ c = b.bytes i :=
  Reading.yields_read

@[simp]
theorem yields_dynamicCast {kType : UInt8} {desc : Nat} {is : Bool} :
    (b.dynamicCast kType desc).Yields readable is ↔
      readable (desc + 1) ∧ is = decide (b.bytes (desc + 1) = kType) := by
  rw [dynamicCast, Reading.yields_bind]
  constructor
  · rintro ⟨type, read, returned⟩
    rcases yields_byte.mp read with ⟨allowed, rfl⟩
    exact ⟨allowed, Reading.yields_pure.mp returned⟩
  · rintro ⟨allowed, rfl⟩
    exact ⟨_, yields_byte.mpr ⟨allowed, rfl⟩, Reading.yields_pure.mpr rfl⟩

theorem yields_next {p : Nat} {n : Option Nat} :
    (b.next p).Yields readable n ↔
      readable p ∧ (b.Inside (b.after p) ∧ n = some (b.after p) ∨
        ¬ b.Inside (b.after p) ∧ n = none) := by
  rw [next, Reading.yields_bind]
  have result (returned : n = if (b.after p : Int) < b.len then some (b.after p) else none) :
      b.Inside (b.after p) ∧ n = some (b.after p) ∨ ¬ b.Inside (b.after p) ∧ n = none := by
    by_cases inside : b.Inside (b.after p)
    · exact .inl ⟨inside, returned.trans (if_pos inside)⟩
    · exact .inr ⟨inside, returned.trans (if_neg inside)⟩
  constructor
  · rintro ⟨length, read, returned⟩
    rcases yields_byte.mp read with ⟨allowed, rfl⟩
    exact ⟨allowed, result (Reading.yields_pure.mp returned)⟩
  · rintro ⟨allowed, outcome⟩
    refine ⟨_, yields_byte.mpr ⟨allowed, rfl⟩, Reading.yields_pure.mpr ?_⟩
    change n = if (b.after p : Int) < b.len then some (b.after p) else none
    rcases outcome with ⟨inside, rfl⟩ | ⟨outside, rfl⟩
    · exact (if_pos inside).symm
    · exact (if_neg outside).symm

/-- One round of `Next<T>`. -/
theorem yields_nextOf_succ {kType : UInt8} {rounds p : Nat} {n : Option Nat} :
    (b.nextOf kType (rounds + 1) p).Yields readable n ↔
      readable p ∧ (¬ b.Inside (b.after p) ∧ n = none ∨
        b.Inside (b.after p) ∧ readable (b.after p + 1) ∧
          (b.bytes (b.after p + 1) = kType ∧ n = some (b.after p) ∨
            b.bytes (b.after p + 1) ≠ kType ∧
              (b.nextOf kType rounds (b.after p)).Yields readable n)) := by
  rw [nextOf, Reading.yields_bind]
  simp only [yields_next]
  constructor
  · rintro ⟨found, ⟨allowed, ⟨inside, rfl⟩ | ⟨outside, rfl⟩⟩, returned⟩
    · rcases Reading.yields_bind.mp returned with ⟨is, cast, returned⟩
      rcases yields_dynamicCast.mp cast with ⟨allowed', rfl⟩
      refine ⟨allowed, .inr ⟨inside, allowed', ?_⟩⟩
      by_cases type : b.bytes (b.after p + 1) = kType
      · rw [if_pos (decide_eq_true type)] at returned
        exact .inl ⟨type, Reading.yields_pure.mp returned⟩
      · rw [if_neg (by simpa using type)] at returned
        exact .inr ⟨type, returned⟩
    · exact ⟨allowed, .inl ⟨outside, Reading.yields_pure.mp returned⟩⟩
  · rintro ⟨allowed, ⟨outside, rfl⟩ | ⟨inside, allowed', outcome⟩⟩
    · exact ⟨none, ⟨allowed, .inr ⟨outside, rfl⟩⟩, Reading.yields_pure.mpr rfl⟩
    · refine ⟨_, ⟨allowed, .inl ⟨inside, rfl⟩⟩, ?_⟩
      refine Reading.yields_bind.mpr ⟨_, yields_dynamicCast.mpr ⟨allowed', rfl⟩, ?_⟩
      rcases outcome with ⟨type, rfl⟩ | ⟨type, rest⟩
      · rw [if_pos (decide_eq_true type)]
        exact Reading.yields_pure.mpr rfl
      · rw [if_neg (by simpa using type)]
        exact rest

/-- More rounds do not change the result. -/
theorem nextOf_mono {kType : UInt8} {rounds rounds' p : Nat} {n : Option Nat}
    (found : (b.nextOf kType rounds p).Yields readable n) (le : rounds ≤ rounds') :
    (b.nextOf kType rounds' p).Yields readable n := by
  induction rounds generalizing p rounds' with
  | zero => exact absurd found Reading.not_yields_pending
  | succ rounds ih =>
      rcases Nat.exists_eq_add_of_le' le with ⟨more, rfl⟩
      rw [← Nat.add_assoc] at le ⊢
      rw [yields_nextOf_succ] at found ⊢
      rcases found with ⟨allowed, nothing | ⟨inside, allowed', found | ⟨type, rest⟩⟩⟩
      · exact ⟨allowed, .inl nothing⟩
      · exact ⟨allowed, .inr ⟨inside, allowed', .inl found⟩⟩
      · exact ⟨allowed, .inr ⟨inside, allowed', .inr ⟨type, ih rest (by omega)⟩⟩⟩

theorem yields_makeEPConfig {epDesc : Nat} {conf : EndpointConfig} :
    (b.makeEPConfig epDesc).Yields readable conf ↔
      (readable (epDesc + 2) ∧ readable (epDesc + 3) ∧ readable (epDesc + 4) ∧
        readable (epDesc + 5) ∧ readable (epDesc + 6)) ∧ conf = b.endpointConfig epDesc := by
  simp only [makeEPConfig, Reading.yields_bind, yields_byte, Reading.yields_pure, endpointConfig]
  constructor
  · rintro ⟨_, ⟨r₂, rfl⟩, _, ⟨r₃, rfl⟩, _, ⟨r₄, rfl⟩, _, ⟨r₅, rfl⟩, _, ⟨r₆, rfl⟩, rfl⟩
    exact ⟨⟨r₂, r₃, r₄, r₅, r₆⟩, rfl⟩
  · rintro ⟨⟨r₂, r₃, r₄, r₅, r₆⟩, rfl⟩
    exact ⟨_, ⟨r₂, rfl⟩, _, ⟨r₃, rfl⟩, _, ⟨r₄, rfl⟩, _, ⟨r₅, rfl⟩, _, ⟨r₆, rfl⟩, rfl⟩

theorem yields_logInterface {ifDesc : Nat} {u : Unit} :
    (b.logInterface ifDesc).Yields readable u ↔
      readable (ifDesc + 5) ∧ readable (ifDesc + 6) ∧ readable (ifDesc + 7) := by
  simp only [logInterface, Reading.yields_bind, yields_byte, Reading.yields_pure]
  constructor
  · rintro ⟨_, ⟨r₅, -⟩, _, ⟨r₆, -⟩, _, ⟨r₇, -⟩, -⟩
    exact ⟨r₅, r₆, r₇⟩
  · rintro ⟨r₅, r₆, r₇⟩
    exact ⟨_, ⟨r₅, rfl⟩, _, ⟨r₆, rfl⟩, _, ⟨r₇, rfl⟩, trivial⟩

/-- The listed descriptors lie one after another. -/
theorem yields_logClassDescriptors {hidDesc count i : Nat} {u : Unit} :
    (b.logClassDescriptors hidDesc count i).Yields b.Inside u ↔
      (0 < count → b.Inside (hidDesc + 5 + 3 * (i + count))) := by
  induction count generalizing i with
  | zero => exact iff_of_true (Reading.yields_pure.mpr rfl) (fun none => absurd none (by decide))
  | succ count ih =>
      simp only [logClassDescriptors, Reading.yields_bind, yields_byte, ih]
      constructor
      · rintro ⟨_, ⟨-, -⟩, _, ⟨-, -⟩, _, ⟨-, -⟩, _, ⟨last, -⟩, rest⟩ -
        by_cases more : 0 < count
        · have inside := rest more
          rwa [show i + 1 + count = i + (count + 1) by omega] at inside
        · rwa [show hidDesc + 5 + 3 * (i + (count + 1)) = hidDesc + 6 + 3 * i + 2 by omega]
      · intro inside
        have all := inside (by omega)
        refine ⟨_, ⟨all.mono (by omega), rfl⟩, _, ⟨all.mono (by omega), rfl⟩, _,
          ⟨all.mono (by omega), rfl⟩, _, ⟨all.mono (by omega), rfl⟩, ?_⟩
        intro more
        exact all.mono (by omega)

theorem yields_logHID {hidDesc : Nat} {u : Unit} :
    (b.logHID hidDesc).Yields b.Inside u ↔
      b.Inside (hidDesc + 5 + 3 * (b.bytes (hidDesc + 5)).toNat) := by
  simp only [logHID, Reading.yields_bind, yields_byte, yields_logClassDescriptors, Nat.zero_add]
  constructor
  · rintro ⟨_, -, _, -, _, ⟨number, rfl⟩, listed⟩
    by_cases any : 0 < (b.bytes (hidDesc + 5)).toNat
    · exact listed any
    · exact number.mono (by omega)
  · intro all
    exact ⟨_, ⟨all.mono (by omega), rfl⟩, _, ⟨all.mono (by omega), rfl⟩, _, ⟨all.mono (by omega), rfl⟩,
      fun _ => all⟩

/-! ## Drivers -/

/-- The definition, as an equation of functions: an equation of their values makes the
kernel evaluate the call that is matched on. -/
theorem newDriver_def : newDriver = fun b heap d kind ifDesc =>
    match allocMem heap.memoryPool d.allocPtr ⟨heap.size kind, 0, 0⟩ with
    | (_, none) => .fail .nullDriver
    | (allocPtr, some address) => do
        let interfaceNumber ← b.byte (ifDesc + 2)
        return ({ d with allocPtr }, some ⟨address, kind, interfaceNumber⟩) :=
  rfl

theorem yields_newDriver {heap : DriverHeap} {d : InitDevice} {kind : DriverKind} {ifDesc : Nat}
    {result : InitDevice × Option HIDDriver} :
    (b.newDriver heap d kind ifDesc).Yields readable result ↔
      ∃ allocPtr address, allocMem heap.memoryPool d.allocPtr ⟨heap.size kind, 0, 0⟩ =
          (allocPtr, some address) ∧ readable (ifDesc + 2) ∧
        result = ({ d with allocPtr }, some ⟨address, kind, b.bytes (ifDesc + 2)⟩) := by
  rw [newDriver_def]
  beta_reduce
  rcases allocated : allocMem heap.memoryPool d.allocPtr ⟨heap.size kind, 0, 0⟩ with
    ⟨allocPtr, none | address⟩
  · constructor
    · exact fun failed => absurd failed Reading.not_yields_fail
    · rintro ⟨_, _, ⟨⟩, -⟩
  · simp only [Reading.yields_bind, yields_byte, Reading.yields_pure]
    constructor
    · rintro ⟨_, ⟨allowed, rfl⟩, rfl⟩
      exact ⟨_, _, rfl, allowed, rfl⟩
    · rintro ⟨_, _, ⟨⟩, allowed, rfl⟩
      exact ⟨_, ⟨allowed, rfl⟩, rfl⟩

/-- `NewClassDriver` for an interface whose descriptor can be read. -/
theorem yields_newClassDriver {heap : DriverHeap} {d : InitDevice} {ifDesc : Nat}
    (class_ : readable (ifDesc + 5)) (subClass : readable (ifDesc + 6))
    (protocol : readable (ifDesc + 7)) {result : InitDevice × Option HIDDriver} :
    (b.newClassDriver heap d ifDesc).Yields readable result ↔
      b.bootKind ifDesc = none ∧ result = (d, none) ∨
      ∃ kind, b.bootKind ifDesc = some kind ∧
        (b.newDriver heap d kind ifDesc).Yields readable result := by
  have byte {i : Nat} (allowed : readable i) {f : UInt8 → Parse (InitDevice × Option HIDDriver)} :
      (b.byte i >>= f).Yields readable result ↔ (f (b.bytes i)).Yields readable result := by
    rw [Reading.yields_bind_of fun _ => yields_byte, and_iff_right allowed]
  rw [newClassDriver, byte class_, bootKind]
  by_cases isHID : b.bytes (ifDesc + 5) = 3
  · rw [if_pos isHID, byte subClass]
    by_cases isBoot : b.bytes (ifDesc + 6) = 1
    · have supported : b.bytes (ifDesc + 5) = 3 ∧ b.bytes (ifDesc + 6) = 1 := ⟨isHID, isBoot⟩
      rw [if_pos isBoot, byte protocol, if_pos supported]
      by_cases keyboard : b.bytes (ifDesc + 7) = 1
      · simp [keyboard]
      · by_cases mouse : b.bytes (ifDesc + 7) = 2
        · simp [mouse]
        · simp [keyboard, mouse]
    · simp [isBoot]
  · simp [isHID]

/-! ## Endpoints -/

@[simp]
theorem addEndpoint_numEpConfigs (d : InitDevice) (driver : HIDDriver) (conf : EndpointConfig) :
    (addEndpoint d driver conf).numEpConfigs = d.numEpConfigs + 1 :=
  rfl

/-- One round of the inner loop, for an interface whose descriptor can be read. -/
theorem yields_collectEndpoints_succ {driver : HIDDriver} {ifDesc rounds p : Nat} {d d' : InitDevice}
    (number : readable (ifDesc + 4)) :
    (b.collectEndpoints driver ifDesc (rounds + 1) p d).Yields readable d' ↔
      ¬ d.numEpConfigs < (b.bytes (ifDesc + 4)).toNat ∧ d' = d ∨
      d.numEpConfigs < (b.bytes (ifDesc + 4)).toNat ∧ readable p ∧ b.Inside (b.after p) ∧
        readable (b.after p + 1) ∧
        (b.bytes (b.after p + 1) = EndpointDescriptor.kType ∧
            (readable (b.after p + 2) ∧ readable (b.after p + 3) ∧ readable (b.after p + 4) ∧
              readable (b.after p + 5) ∧ readable (b.after p + 6)) ∧
            d.numEpConfigs < 16 ∧
            (b.collectEndpoints driver ifDesc rounds (b.after p)
              (addEndpoint d driver (b.endpointConfig (b.after p)))).Yields readable d' ∨
          b.bytes (b.after p + 1) ≠ EndpointDescriptor.kType ∧
            (b.bytes (b.after p + 1) = HIDDescriptor.kType → (b.logHID (b.after p)).Yields readable ()) ∧
            (b.collectEndpoints driver ifDesc rounds (b.after p) d).Yields readable d') := by
  rw [collectEndpoints, Reading.yields_bind_of fun _ => yields_byte, and_iff_right number]
  by_cases more : d.numEpConfigs < (b.bytes (ifDesc + 4)).toNat
  · rw [if_pos more, or_iff_right (fun enough => enough.1 more), and_iff_right more]
    simp only [Reading.yields_bind, yields_next]
    constructor
    · rintro ⟨found, ⟨allowed, ⟨inside, rfl⟩ | ⟨outside, rfl⟩⟩, returned⟩
      · rcases (Reading.yields_bind_of fun _ => yields_dynamicCast).mp returned with ⟨type, returned⟩
        refine ⟨allowed, inside, type, ?_⟩
        by_cases isEndpoint : b.bytes (b.after p + 1) = EndpointDescriptor.kType
        · rw [if_pos (decide_eq_true isEndpoint)] at returned
          rcases (Reading.yields_bind_of fun _ => yields_makeEPConfig).mp returned with ⟨fields, returned⟩
          split at returned
          · exact .inl ⟨isEndpoint, fields, by assumption, returned⟩
          · exact absurd returned Reading.not_yields_fail
        · rw [if_neg (by simpa using isEndpoint)] at returned
          rcases (Reading.yields_bind_of fun _ => yields_dynamicCast).mp returned with ⟨-, returned⟩
          by_cases isHID : b.bytes (b.after p + 1) = HIDDescriptor.kType
          · rw [if_pos (decide_eq_true isHID)] at returned
            rcases Reading.yields_bind.mp returned with ⟨_, logged, rest⟩
            exact .inr ⟨isEndpoint, fun _ => logged, rest⟩
          · rw [if_neg (by simpa using isHID)] at returned
            exact .inr ⟨isEndpoint, fun type => absurd type isHID, returned⟩
      · exact absurd returned Reading.not_yields_fail
    · rintro ⟨allowed, inside, type, outcome⟩
      refine ⟨_, ⟨allowed, .inl ⟨inside, rfl⟩⟩, ?_⟩
      refine (Reading.yields_bind_of fun _ => yields_dynamicCast).mpr ⟨type, ?_⟩
      rcases outcome with ⟨isEndpoint, fields, room, rest⟩ | ⟨notEndpoint, logged, rest⟩
      · rw [if_pos (decide_eq_true isEndpoint)]
        refine (Reading.yields_bind_of fun _ => yields_makeEPConfig).mpr ⟨fields, ?_⟩
        rwa [if_pos room]
      · rw [if_neg (by simpa using notEndpoint)]
        refine (Reading.yields_bind_of fun _ => yields_dynamicCast).mpr ⟨type, ?_⟩
        by_cases isHID : b.bytes (b.after p + 1) = HIDDescriptor.kType
        · rw [if_pos (decide_eq_true isHID)]
          exact Reading.yields_bind.mpr ⟨(), logged isHID, rest⟩
        · rwa [if_neg (by simpa using isHID)]
  · rw [if_neg more, or_iff_left (fun enough => more enough.1), and_iff_right more,
      Reading.yields_pure]

end

/-- An inner loop that ends has found all endpoints. -/
theorem endpointsFrom_of_yields {driver : HIDDriver} {ifDesc rounds p : Nat} {d d' : InitDevice}
    (number : b.Inside (ifDesc + 4))
    (result : (b.collectEndpoints driver ifDesc rounds p d).Yields b.Inside d') :
    b.EndpointsFrom p ((b.bytes (ifDesc + 4)).toNat - d.numEpConfigs) ∧
      (d.numEpConfigs < (b.bytes (ifDesc + 4)).toNat → (b.bytes (ifDesc + 4)).toNat ≤ 16) := by
  induction rounds generalizing p d with
  | zero => exact absurd result Reading.not_yields_pending
  | succ rounds ih =>
      rcases (yields_collectEndpoints_succ number).mp result with
        ⟨enough, -⟩ | ⟨more, -, -, type, ⟨isEndpoint, fields, room, rest⟩ | ⟨notEndpoint, logged, rest⟩⟩
      · rw [Nat.sub_eq_zero_of_le (Nat.not_lt.mp enough)]
        exact ⟨.done p, fun more => absurd more enough⟩
      · rcases ih rest with ⟨others, small⟩
        rw [addEndpoint_numEpConfigs] at others small
        have left : (b.bytes (ifDesc + 4)).toNat - d.numEpConfigs =
            (b.bytes (ifDesc + 4)).toNat - (d.numEpConfigs + 1) + 1 := by omega
        rw [left]
        exact ⟨.endpoint fields.2.2.2.2 isEndpoint others, by omega⟩
      · rcases ih rest with ⟨others, small⟩
        refine ⟨?_, small⟩
        rcases Nat.exists_eq_add_of_lt more with ⟨n, count⟩
        have left : (b.bytes (ifDesc + 4)).toNat - d.numEpConfigs = n + 1 := by omega
        rw [left] at others ⊢
        by_cases isHID : b.bytes (b.after p + 1) = HIDDescriptor.kType
        · exact .hid (yields_logHID.mp (logged isHID)) isHID others
        · exact .other type notEndpoint isHID others

/-- The inner loop ends if all endpoints are there. -/
theorem exists_collectEndpoints {driver : HIDDriver} {ifDesc p n : Nat} {d : InitDevice}
    (endpoints : b.EndpointsFrom p n) (inside : b.Inside p) (number : b.Inside (ifDesc + 4))
    (count : (b.bytes (ifDesc + 4)).toNat = d.numEpConfigs + n) (small : (b.bytes (ifDesc + 4)).toNat ≤ 16) :
    ∃ enough, ∀ rounds, enough ≤ rounds →
      ∃ d', (b.collectEndpoints driver ifDesc rounds p d).Yields b.Inside d' := by
  induction endpoints generalizing d with
  | done p =>
      refine enough_succ (P := fun _ => True) (fun rounds _ => ⟨d, ?_⟩) ⟨0, fun _ _ => trivial⟩
      exact (yields_collectEndpoints_succ number).mpr (.inl ⟨by omega, rfl⟩)
  | @endpoint p n fields isEndpoint _ ih =>
      have added := addEndpoint_numEpConfigs d driver (b.endpointConfig (b.after p))
      refine enough_succ ?_ (@ih (addEndpoint d driver (b.endpointConfig (b.after p)))
        (fields.mono (by omega)) (by omega))
      rintro rounds ⟨d', rest⟩
      refine ⟨d', (yields_collectEndpoints_succ number).mpr (.inr ⟨by omega, inside,
        fields.mono (by omega), fields.mono (by omega), .inl ⟨isEndpoint, ?_, by omega, rest⟩⟩)⟩
      exact ⟨fields.mono (by omega), fields.mono (by omega), fields.mono (by omega),
        fields.mono (by omega), fields⟩
  | @hid p n listed isHID _ ih =>
      refine enough_succ ?_ (ih (listed.mono (by omega)) count)
      rintro rounds ⟨d', rest⟩
      refine ⟨d', (yields_collectEndpoints_succ number).mpr (.inr ⟨by omega, inside,
        listed.mono (by omega), listed.mono (by omega), .inr ⟨?_, fun _ => yields_logHID.mpr listed, rest⟩⟩)⟩
      rw [isHID]
      decide
  | @other p n type notEndpoint notHID _ ih =>
      refine enough_succ ?_ (ih (type.mono (by omega)) count)
      rintro rounds ⟨d', rest⟩
      exact ⟨d', (yields_collectEndpoints_succ number).mpr (.inr ⟨by omega, inside,
        type.mono (by omega), type, .inr ⟨notEndpoint, fun isHID => absurd isHID notHID, rest⟩⟩)⟩

/-! ## The search -/

section

variable {readable : Nat → Prop} {heap : DriverHeap}

/-- What the outer loop does with an interface. -/
inductive Visits (b : DescriptorBuffer) (heap : DriverHeap) (readable : Nat → Prop)
    (rounds left : Nat) (d : InitDevice) (ifDesc : Nat) (result : InitDevice × Option HIDDriver) : Prop
  | unsupported : b.bootKind ifDesc = none →
      (b.searchInterface heap rounds left ifDesc d).Yields readable result →
      Visits b heap readable rounds left d ifDesc result
  | selected {kind : DriverKind} {allocPtr address : Nat} {d' : InitDevice} :
      b.bootKind ifDesc = some kind →
      allocMem heap.memoryPool d.allocPtr ⟨heap.size kind, 0, 0⟩ = (allocPtr, some address) →
      readable (ifDesc + 2) →
      (b.collectEndpoints ⟨address, kind, b.bytes (ifDesc + 2)⟩ ifDesc rounds ifDesc
        { d with allocPtr, numEpConfigs := 0 }).Yields readable d' →
      result = (d', some ⟨address, kind, b.bytes (ifDesc + 2)⟩) →
      Visits b heap readable rounds left d ifDesc result

/-- One round of the outer loop. -/
theorem yields_searchInterface_succ {rounds left p : Nat} {d : InitDevice}
    {result : InitDevice × Option HIDDriver} :
    (b.searchInterface heap rounds (left + 1) p d).Yields readable result ↔
      ∃ n, (b.nextOf InterfaceDescriptor.kType rounds p).Yields readable n ∧
        (n = none ∧ result = (d, none) ∨
          ∃ ifDesc, n = some ifDesc ∧
            (readable (ifDesc + 5) ∧ readable (ifDesc + 6) ∧ readable (ifDesc + 7)) ∧
            Visits b heap readable rounds left d ifDesc result) := by
  rw [searchInterface, Reading.yields_bind]
  constructor
  · rintro ⟨_ | ifDesc, found, returned⟩
    · exact ⟨none, found, .inl ⟨rfl, Reading.yields_pure.mp returned⟩⟩
    · rcases Reading.yields_bind.mp returned with ⟨_, logged, returned⟩
      have fields := yields_logInterface.mp logged
      rcases Reading.yields_bind.mp returned with ⟨made, new, returned⟩
      refine ⟨_, found, .inr ⟨ifDesc, rfl, fields, ?_⟩⟩
      rcases (yields_newClassDriver fields.1 fields.2.1 fields.2.2).mp new with
        ⟨unsupported, rfl⟩ | ⟨kind, supported, created⟩
      · exact .unsupported unsupported returned
      · rcases yields_newDriver.mp created with ⟨allocPtr, address, allocated, number, rfl⟩
        rcases Reading.yields_bind.mp returned with ⟨d', collected, returned⟩
        exact .selected supported allocated number collected (Reading.yields_pure.mp returned)
  · rintro ⟨n, found, ⟨rfl, rfl⟩ | ⟨ifDesc, rfl, fields, visits⟩⟩
    · exact ⟨none, found, Reading.yields_pure.mpr rfl⟩
    · refine ⟨_, found, Reading.yields_bind.mpr ⟨(), yields_logInterface.mpr fields, ?_⟩⟩
      rw [Reading.yields_bind]
      cases visits with
      | unsupported unsupported rest =>
          exact ⟨_, (yields_newClassDriver fields.1 fields.2.1 fields.2.2).mpr
            (.inl ⟨unsupported, rfl⟩), rest⟩
      | selected supported allocated number collected returned =>
          refine ⟨_, (yields_newClassDriver fields.1 fields.2.1 fields.2.2).mpr (.inr ⟨_, supported,
            yields_newDriver.mpr ⟨_, _, allocated, number, rfl⟩⟩), ?_⟩
          exact Reading.yields_bind.mpr ⟨_, collected, Reading.yields_pure.mpr returned⟩

end

/-- What lies behind an interface that is found decides. -/
theorem searchableFrom_of_nextOf {heap : DriverHeap} {allocPtr rounds p : Nat} {n : Option Nat}
    (found : (b.nextOf InterfaceDescriptor.kType rounds p).Yields b.Inside n)
    (continues : ∀ ifDesc, n = some ifDesc →
      b.Inside (ifDesc + 7) ∧ (b.bootKind ifDesc = none ∧ b.SearchableFrom heap allocPtr ifDesc ∨
        ∃ kind, b.bootKind ifDesc = some kind ∧
          (allocMem heap.memoryPool allocPtr ⟨heap.size kind, 0, 0⟩).2.isSome ∧
          b.EndpointsOf ifDesc)) :
    b.SearchableFrom heap allocPtr p := by
  induction rounds generalizing p with
  | zero => exact absurd found Reading.not_yields_pending
  | succ rounds ih =>
      rcases yields_nextOf_succ.mp found with
        ⟨-, ⟨outside, -⟩ | ⟨inside, type, ⟨isInterface, rfl⟩ | ⟨notInterface, rest⟩⟩⟩
      · exact .nothing outside
      · rcases continues _ rfl with ⟨fields, ⟨unsupported, rest⟩ | ⟨kind, supported, room, endpoints⟩⟩
        · exact .unsupported fields isInterface unsupported rest
        · exact .selected fields isInterface supported room endpoints
      · exact .other type notInterface (ih rest)

/-- An outer loop that ends has gone through descriptors that are there. -/
theorem searchableFrom_of_yields {heap : DriverHeap} {rounds left p : Nat} {d : InitDevice}
    {result : InitDevice × Option HIDDriver}
    (ends : (b.searchInterface heap rounds left p d).Yields b.Inside result) :
    b.SearchableFrom heap d.allocPtr p := by
  induction left generalizing p with
  | zero => exact absurd ends Reading.not_yields_pending
  | succ left ih =>
      rcases yields_searchInterface_succ.mp ends with ⟨n, found, outcome⟩
      refine searchableFrom_of_nextOf found ?_
      rintro ifDesc rfl
      rcases outcome with ⟨⟨⟩, -⟩ | ⟨_, ⟨⟩, fields, visits⟩
      refine ⟨fields.2.2, ?_⟩
      cases visits with
      | unsupported unsupported rest => exact .inl ⟨unsupported, ih rest⟩
      | selected supported allocated number collected returned =>
          rcases endpointsFrom_of_yields (fields.1.mono (by omega)) collected with ⟨endpoints, small⟩
          have few : (b.bytes (ifDesc + 4)).toNat ≤ 16 := by
            by_cases any : 0 < (b.bytes (ifDesc + 4)).toNat
            · exact small any
            · omega
          exact .inr ⟨_, supported, by rw [allocated]; rfl, few, endpoints⟩

/-- The outer loop ends if the descriptors that it goes through are there. -/
theorem exists_searchInterface {heap : DriverHeap} {d : InitDevice} {p : Nat}
    (searchable : b.SearchableFrom heap d.allocPtr p) (inside : b.Inside p) :
    ∃ enough, ∀ rounds, enough ≤ rounds → ∀ left, enough ≤ left →
      ∃ result, (b.searchInterface heap rounds left p d).Yields b.Inside result := by
  induction searchable with
  | @nothing p outside =>
      refine ⟨1, fun rounds le left le' => ⟨(d, none), ?_⟩⟩
      rcases Nat.exists_eq_add_of_le' le with ⟨rounds, rfl⟩
      rcases Nat.exists_eq_add_of_le' le' with ⟨left, rfl⟩
      exact yields_searchInterface_succ.mpr
        ⟨none, yields_nextOf_succ.mpr ⟨inside, .inl ⟨outside, rfl⟩⟩, .inl ⟨rfl, rfl⟩⟩
  | @other p type notInterface _ ih =>
      rcases ih (type.mono (by omega)) with ⟨enough, ends⟩
      refine ⟨enough + 1, fun rounds le left le' => ?_⟩
      rcases Nat.exists_eq_add_of_le' (Nat.le_of_add_left_le le) with ⟨rounds, rfl⟩
      rcases Nat.exists_eq_add_of_le' (Nat.le_of_add_left_le le') with ⟨left, rfl⟩
      -- the next call of `Next<InterfaceDescriptor>` finds the same with one round less
      rcases ends rounds (by omega) (left + 1) (by omega) with ⟨_, before⟩
      rcases ends (rounds + 1) (by omega) (left + 1) (by omega) with ⟨result, rest⟩
      rcases yields_searchInterface_succ.mp before with ⟨n, found, -⟩
      rcases yields_searchInterface_succ.mp rest with ⟨n', found', outcome⟩
      rcases (nextOf_mono found (Nat.le_succ rounds)).unique found' with rfl
      exact ⟨result, yields_searchInterface_succ.mpr ⟨n, yields_nextOf_succ.mpr ⟨inside,
        .inr ⟨type.mono (by omega), type, .inr ⟨notInterface, found⟩⟩⟩, outcome⟩⟩
  | @unsupported p fields isInterface unsupported _ ih =>
      rcases ih (fields.mono (by omega)) with ⟨enough, ends⟩
      refine ⟨enough + 1, fun rounds le left le' => ?_⟩
      rcases Nat.exists_eq_add_of_le' (Nat.le_of_add_left_le le) with ⟨rounds, rfl⟩
      rcases Nat.exists_eq_add_of_le' (Nat.le_of_add_left_le le') with ⟨left, rfl⟩
      rcases ends (rounds + 1) (by omega) left (by omega) with ⟨result, rest⟩
      exact ⟨result, yields_searchInterface_succ.mpr ⟨_, yields_nextOf_succ.mpr ⟨inside,
        .inr ⟨fields.mono (by omega), fields.mono (by omega), .inl ⟨isInterface, rfl⟩⟩⟩,
        .inr ⟨_, rfl, ⟨fields.mono (by omega), fields.mono (by omega), fields⟩,
          .unsupported unsupported rest⟩⟩⟩
  | @selected p kind fields isInterface supported room endpoints =>
      cases allocated : allocMem heap.memoryPool d.allocPtr ⟨heap.size kind, 0, 0⟩ with
      | mk allocPtr new =>
          rw [allocated] at room
          rcases Option.isSome_iff_exists.mp room with ⟨address, rfl⟩
          rcases @exists_collectEndpoints b ⟨address, kind, b.bytes (b.after p + 2)⟩ (b.after p)
            (b.after p) _ { d with allocPtr, numEpConfigs := 0 } endpoints.2 (fields.mono (by omega))
            (fields.mono (by omega)) (Nat.zero_add _).symm endpoints.1 with ⟨enough, ends⟩
          refine ⟨enough + 1, fun rounds le left le' => ?_⟩
          rcases Nat.exists_eq_add_of_le' (Nat.le_of_add_left_le le) with ⟨rounds, rfl⟩
          rcases Nat.exists_eq_add_of_le' (Nat.le_of_add_left_le le') with ⟨left, rfl⟩
          rcases ends (rounds + 1) (by omega) with ⟨d', collected⟩
          exact ⟨_, yields_searchInterface_succ.mpr ⟨_, yields_nextOf_succ.mpr ⟨inside,
            .inr ⟨fields.mono (by omega), fields.mono (by omega), .inl ⟨isInterface, rfl⟩⟩⟩,
            .inr ⟨_, rfl, ⟨fields.mono (by omega), fields.mono (by omega), fields⟩,
              .selected supported allocated (fields.mono (by omega)) collected rfl⟩⟩⟩

/-- An interface that is selected has been received. -/
theorem inside_of_selected {heap : DriverHeap} {rounds left p : Nat} {d d' : InitDevice}
    {driver : HIDDriver}
    (ends : (b.searchInterface heap rounds left p d).Yields b.Inside (d', some driver)) :
    b.Inside 7 := by
  induction left generalizing p with
  | zero => exact absurd ends Reading.not_yields_pending
  | succ left ih =>
      rcases yields_searchInterface_succ.mp ends with
        ⟨n, found, ⟨rfl, nothing⟩ | ⟨ifDesc, rfl, fields, visits⟩⟩
      · cases nothing
      · cases visits with
        | unsupported unsupported rest => exact ih rest
        | selected => exact fields.2.2.mono (by omega)

/-! ## `InitializePhase2` -/

section

variable {readable : Nat → Prop} {heap : DriverHeap} {rounds : Nat} {d d' : InitDevice}

/-- No interface has been selected. -/
theorem yields_initializePhase2_of_none (type : readable 1)
    (isConfiguration : b.bytes 1 = ConfigurationDescriptor.kType)
    (search : (b.searchInterface heap rounds rounds 0 d).Yields readable (d', none)) :
    (b.initializePhase2 heap rounds d).Yields readable (d', .success) := by
  rw [initializePhase2]
  refine (Reading.yields_bind_of fun _ => yields_dynamicCast).mpr ⟨type, ?_⟩
  rw [if_pos (decide_eq_true isConfiguration)]
  exact Reading.yields_bind.mpr ⟨_, search, Reading.yields_pure.mpr rfl⟩

/-- An interface has been selected, and `SetConfiguration` is issued. -/
theorem yields_initializePhase2_of_some {driver : HIDDriver} (type : readable 1)
    (isConfiguration : b.bytes 1 = ConfigurationDescriptor.kType)
    (search : (b.searchInterface heap rounds rounds 0 d).Yields readable (d', some driver))
    (configurationValue : readable 5) :
    (b.initializePhase2 heap rounds d).Yields readable ({ d' with
      initializePhase := 3
      requests := d'.requests ++ [setConfigurationData (b.bytes 5)] }, .success) := by
  rw [initializePhase2]
  refine (Reading.yields_bind_of fun _ => yields_dynamicCast).mpr ⟨type, ?_⟩
  rw [if_pos (decide_eq_true isConfiguration)]
  refine Reading.yields_bind.mpr ⟨_, search, ?_⟩
  exact (Reading.yields_bind_of fun _ => yields_byte).mpr
    ⟨configurationValue, Reading.yields_pure.mpr rfl⟩

end

theorem wellBehaved_of_yields {heap : DriverHeap} {rounds : Nat} {d : InitDevice}
    {result : InitDevice × Error} (ends : (b.initializePhase2 heap rounds d).Yields b.Inside result) :
    b.WellBehaved heap d.allocPtr := by
  rw [initializePhase2] at ends
  rcases (Reading.yields_bind_of fun _ => yields_dynamicCast).mp ends with ⟨type, ends⟩
  refine ⟨type, fun isConfiguration => ?_⟩
  rw [if_pos (decide_eq_true isConfiguration)] at ends
  rcases Reading.yields_bind.mp ends with ⟨_, search, -⟩
  exact searchableFrom_of_yields search

/-- `InitializePhase2` comes to an end, reads what has been received only, takes no null pointer
for a descriptor, and stays inside its arrays, exactly if the buffer is well-behaved. -/
theorem parsesSafely_iff (b : DescriptorBuffer) (heap : DriverHeap) (d : InitDevice) :
    (∃ rounds result, (b.initializePhase2 heap rounds d).Yields b.Inside result) ↔
      b.WellBehaved heap d.allocPtr := by
  constructor
  · rintro ⟨rounds, result, ends⟩
    exact wellBehaved_of_yields ends
  · rintro ⟨type, searchable⟩
    by_cases isConfiguration : b.bytes 1 = ConfigurationDescriptor.kType
    · have first : b.Inside 0 := type.mono (by omega)
      rcases exists_searchInterface (searchable isConfiguration) first with ⟨enough, ends⟩
      rcases ends enough le_rfl enough le_rfl with ⟨⟨d', selected⟩, search⟩
      cases selected with
      | none => exact ⟨enough, _, yields_initializePhase2_of_none type isConfiguration search⟩
      | some driver =>
          have configurationValue : b.Inside 5 := (inside_of_selected search).mono (by omega)
          exact ⟨enough, _, yields_initializePhase2_of_some type isConfiguration search configurationValue⟩
    · refine ⟨0, (d, .invalidDescriptor), ?_⟩
      rw [initializePhase2]
      refine (Reading.yields_bind_of fun _ => yields_dynamicCast).mpr ⟨type, ?_⟩
      rw [if_neg (by simpa using isConfiguration)]
      exact Reading.yields_pure.mpr rfl

def plainHeap : DriverHeap :=
  ⟨0x100000, fun _ => 2200⟩

/-- A configuration with a keyboard whose endpoint is not there. -/
def withoutEndpoint : DescriptorBuffer where
  bytes := fun i => [9, 2, 18, 0, 1, 1, 0, 160, 50, 9, 4, 0, 0, 1, 3, 1, 1, 0].getD i 0
  len := 18

/-- A configuration with a descriptor of length 0. -/
def withoutLength : DescriptorBuffer where
  bytes := fun i => [9, 2, 18, 0, 1, 1, 0, 160, 50, 0, 0].getD i 0
  len := 18

/-- A null pointer is taken for the descriptor of the endpoint that is missing, and the loop goes
on for ever where the length is 0. -/
theorem not_parsesSafely :
    (¬ ∃ rounds result, (withoutEndpoint.initializePhase2 plainHeap rounds (.configuring 0x100000)).Yields
      withoutEndpoint.Inside result) ∧
    ¬ ∃ rounds result, (withoutLength.initializePhase2 plainHeap rounds (.configuring 0x100000)).Yields
      withoutLength.Inside result := by
  constructor
  · rintro ⟨rounds, result, ends⟩
    have outside : ¬ withoutEndpoint.Inside 19 := by decide
    cases (wellBehaved_of_yields ends).2 rfl with
    | nothing notFound => exact notFound (by decide)
    | other _ notInterface => exact notInterface rfl
    | unsupported _ _ unsupported => cases unsupported
    | selected _ _ _ _ endpoints =>
        cases endpoints.2 with
        | endpoint fields => exact outside (fields.mono (by decide))
        | hid listed => exact outside (listed.mono (by decide))
        | other type => exact outside type
  · rintro ⟨rounds, result, ends⟩
    cases (wellBehaved_of_yields ends).2 rfl with
    | nothing notFound => exact notFound (by decide)
    | other _ _ rest => exact absurd (rest.selected_of_zero rfl (by decide)).1 (by decide)
    | unsupported _ isInterface => cases isInterface
    | selected _ isInterface => cases isInterface

end DescriptorBuffer

end Mikanos.Usb
