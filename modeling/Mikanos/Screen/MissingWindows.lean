import Mikanos.Screen.Drawing
import Mikanos.Screen.Keys

/-!
# Windows that do not exist

An application names a window by the id of its layer, in the low half of the first
argument of a system call, and learns from the error field of the result whether
there is one.  The calls that draw find the layer in `DoWinFunc`; `CloseWindow` does
so itself, and puts the error into the other field.

A call of the model has no outcome where the program does not come back or its
behaviour is undefined: a string without an end, a pixel beside the window, a layer
to be drawn that is not shown.
-/

namespace Mikanos.Screen

open Mikanos.Memory LayerManager

/-- `EBADF`. -/
def ebadf : Nat := 9

/-- `syscall::Result`. -/
structure Result where
  value : Nat
  error : Int

/-! ## Writing to a window -/

namespace Window

/-- `Write`; `none` if the pixel is not one of the window's. -/
def write (w : Window) (pos : Vector2D) (c : PixelColor) : Option Window :=
  if (outline w.size).Contains pos.x pos.y then
    some { w with pixel := fun x y => if x = pos.x ∧ y = pos.y then c else w.pixel x y }
  else none

/-- A drawing function, by the pixels that it writes. -/
def writeAll : Window → List (Vector2D × PixelColor) → Option Window
  | w, [] => some w
  | w, (pos, c) :: rest => (w.write pos c).bind fun w => writeAll w rest

theorem writeAll_isSome_iff (w : Window) (writes : List (Vector2D × PixelColor)) :
    (w.writeAll writes).isSome ↔
      ∀ write ∈ writes, (outline w.size).Contains write.1.x write.1.y := by
  induction writes generalizing w with
  | nil => simp [writeAll]
  | cons first rest ih =>
      rw [writeAll, List.forall_mem_cons, write]
      by_cases inside : (outline w.size).Contains first.1.x first.1.y
      · rw [if_pos inside, Option.bind_some, ih, and_iff_right inside]
      · rw [if_neg inside, Option.bind_none]
        exact iff_of_false Bool.false_ne_true fun all => inside all.1

end Window

/-- `WriteString` meets the end of the string within so many rounds of its loop. -/
def Font.ends (mem : Mem) : Nat → (s : Nat) → Bool
  | 0, _ => false
  | rounds + 1, s => charAt mem s 0 = 0 || ends mem rounds (s + (convertUTF8To32 mem s).2)

/-! ## The system calls -/

/-- `DoWinFunc`. -/
def doWinFunc (d : Desktop) (layerIdFlags : UInt64) (f : Window → Option (Window × Result)) :
    Option (Desktop × Result) :=
  let layerFlags := layerIdFlags.toNat / 2 ^ 32
  let layerId := layerIdFlags.toNat % 2 ^ 32
  match d.manager.findLayer layerId with
  | none => some (d, ⟨0, ebadf⟩)
  | some layer => do
      let (window, res) ← f layer.window
      let manager := d.manager.set { layer with window }
      if res.error ≠ 0 then some ({ d with manager }, res)
      else if layerFlags % 2 = 0 then do
        let manager ← manager.drawWindow layerId
        some ({ d with manager }, res)
      else some ({ d with manager }, res)

section

variable (font : Font) (mem : Mem) (rounds : Nat) (d : Desktop)

/-- The function that a drawing call passes to `DoWinFunc`. -/
def DrawCall.drawIn (call : DrawCall) (win : Window) : Option (Window × Result) :=
  (win.writeAll (call.writes font mem rounds)).map fun win => (win, ⟨0, 0⟩)

/-- `WinWriteString`, if the string ends within so many rounds. -/
def winWriteString (arg1 arg2 arg3 arg4 arg5 : UInt64) : Option (Desktop × Result) :=
  doWinFunc d arg1 fun win =>
    if Font.ends mem rounds arg5.toNat then
      (DrawCall.winWriteString arg1 arg2 arg3 arg4 arg5).drawIn font mem rounds win
    else none

/-- `WinFillRectangle`. -/
def winFillRectangle (arg1 arg2 arg3 arg4 arg5 arg6 : UInt64) : Option (Desktop × Result) :=
  doWinFunc d arg1
    ((DrawCall.winFillRectangle arg1 arg2 arg3 arg4 arg5 arg6).drawIn font mem rounds)

/-- `WinRedraw`. -/
def winRedraw (arg1 : UInt64) : Option (Desktop × Result) :=
  doWinFunc d arg1 fun win => some (win, ⟨0, 0⟩)

/-- `WinDrawLine`. -/
def winDrawLine (arg1 arg2 arg3 arg4 arg5 arg6 : UInt64) : Option (Desktop × Result) :=
  doWinFunc d arg1 ((DrawCall.winDrawLine arg1 arg2 arg3 arg4 arg5 arg6).drawIn font mem rounds)

/-- `CloseWindow`. -/
def closeWindow (arg1 : UInt64) : Option (Desktop × Result) :=
  let layerId := arg1.toNat % 2 ^ 32
  match d.manager.findLayer layerId with
  | none => some (d, ⟨ebadf, 0⟩)
  | some layer => do
      let d ← d.activate 0
      let manager := (d.manager.removeLayer layerId).draw ⟨layer.pos, layer.window.size⟩
      some ({ d with manager, layerTaskMap := Function.update d.layerTaskMap layerId none }, ⟨0, 0⟩)

end

/-- A system call about a window. -/
inductive WinCall
  | draw (call : DrawCall)
  | winRedraw (arg1 : UInt64)
  | closeWindow (arg1 : UInt64)

namespace WinCall

/-- The first argument. -/
def arg1 : WinCall → UInt64
  | draw (.winWriteString arg1 ..) => arg1
  | draw (.winFillRectangle arg1 ..) => arg1
  | draw (.winDrawLine arg1 ..) => arg1
  | winRedraw arg1 => arg1
  | closeWindow arg1 => arg1

/-- The id of the layer. -/
def layerId (call : WinCall) : Nat :=
  call.arg1.toNat % 2 ^ 32

/-- The call is `CloseWindow`. -/
def closes : WinCall → Bool
  | closeWindow _ => true
  | _ => false

/-- The window is to be drawn on the screen. -/
def Redraws (call : WinCall) : Prop :=
  call.arg1.toNat / 2 ^ 32 % 2 = 0

/-- What a call makes of the desktop, and its result. -/
def perform (font : Font) (mem : Mem) (rounds : Nat) (d : Desktop) :
    WinCall → Option (Desktop × Result)
  | draw (.winWriteString arg1 arg2 arg3 arg4 arg5) =>
      Screen.winWriteString font mem rounds d arg1 arg2 arg3 arg4 arg5
  | draw (.winFillRectangle arg1 arg2 arg3 arg4 arg5 arg6) =>
      Screen.winFillRectangle font mem rounds d arg1 arg2 arg3 arg4 arg5 arg6
  | draw (.winDrawLine arg1 arg2 arg3 arg4 arg5 arg6) =>
      Screen.winDrawLine font mem rounds d arg1 arg2 arg3 arg4 arg5 arg6
  | winRedraw arg1 => Screen.winRedraw d arg1
  | closeWindow arg1 => Screen.closeWindow d arg1

/-- The call returns, its error field says whether the window is missing, and for a
missing window nothing changes. -/
def Reports (font : Font) (mem : Mem) (d : Desktop) (call : WinCall) : Prop :=
  ∃ rounds d' r, call.perform font mem rounds d = some (d', r) ∧
    (r.error ≠ 0 ↔ d.manager.findLayer call.layerId = none) ∧
    (d.manager.findLayer call.layerId = none → d' = d)

end WinCall

/-- A layer with the id is shown. -/
def LayerManager.IsShown (m : LayerManager) (id : Nat) : Prop :=
  ∃ layer ∈ m.shown, layer.id = id

/-- The string of a call has an end. -/
def DrawCall.Ends (mem : Mem) : DrawCall → Prop
  | winWriteString _ _ _ _ s => ∃ rounds, Font.ends mem rounds s.toNat
  | _ => True

namespace WinCall

/-- What a call on an existing window relies on: what is to be drawn lies in the window, the string
has an end, and the layers that are drawn are shown. -/
def Proper (font : Font) (mem : Mem) (d : Desktop) (layer : Layer) : WinCall → Prop
  | draw call =>
      call.Admits font mem layer.window.size ∧ call.Ends mem ∧
        ((draw call).Redraws → d.manager.IsShown (draw call).layerId)
  | winRedraw arg1 =>
      (winRedraw arg1).Redraws → d.manager.IsShown (winRedraw arg1).layerId
  | closeWindow _ => d.activeLayer = 0 ∨ d.manager.IsShown d.activeLayer

end WinCall

/-! ## Drawing what is shown -/

namespace LayerManager

variable {m m' : LayerManager} {id : Nat}

theorem SameKeys.shown (same : SameKeys m m') :
    m'.shown.map Layer.key = m.shown.map Layer.key := by
  rw [LayerManager.shown, LayerManager.shown, List.map_filterMap, List.map_filterMap,
    same.layerStack]
  apply List.filterMap_congr
  intro address _
  rw [key_layerAt, key_layerAt, same.keys]

theorem isShown_iff_key (m : LayerManager) (id : Nat) :
    m.IsShown id ↔ ∃ key ∈ m.shown.map Layer.key, key.id = id := by
  constructor
  · rintro ⟨layer, member, same⟩
    exact ⟨layer.key, List.mem_map_of_mem member, same⟩
  · rintro ⟨key, member, same⟩
    obtain ⟨layer, inStack, rfl⟩ := List.mem_map.mp member
    exact ⟨layer, inStack, same⟩

theorem SameKeys.isShown_iff (same : SameKeys m m') (id : Nat) : m'.IsShown id ↔ m.IsShown id := by
  rw [isShown_iff_key, isShown_iff_key, same.shown]

/-- A layer that is not met in the stack leaves `window_area` unset. -/
theorem drawRound_eq_none (layers : List Layer) (state : Rectangle × Option Rectangle × FrameBuffer)
    (unset : state.2.1 = none) (absent : ∀ layer ∈ layers, layer.id ≠ id) :
    (layers.foldl (drawRound id) state).2.1 = none := by
  induction layers generalizing state with
  | nil => exact unset
  | cons layer rest ih =>
      rcases state with ⟨area, drawn, buffer⟩
      rw [List.forall_mem_cons] at absent
      apply ih _ _ absent.2
      cases unset
      rw [drawRound, if_neg absent.1]

/-- `Draw(id)` needs a layer that is shown. -/
theorem drawWindow_isSome_iff (m : LayerManager) (id : Nat) :
    (m.drawWindow id).isSome ↔ m.IsShown id := by
  constructor
  · intro drawn
    by_contra absent
    have unset :
        (m.shown.foldl (drawRound id) (⟨⟨0, 0⟩, ⟨-1, -1⟩⟩, none, m.backBuffer)).2.1 = none :=
      drawRound_eq_none m.shown _ rfl fun layer member same => absent ⟨layer, member, same⟩
    rw [drawWindow, drawLayer] at drawn
    split at drawn
    · exact Bool.false_ne_true drawn
    · rename_i set
      rw [set] at unset
      cases unset
  · intro shown
    obtain ⟨m', drawn, -⟩ := exists_drawLayer ⟨⟨0, 0⟩, ⟨-1, -1⟩⟩ shown
    rw [drawWindow, drawn]
    rfl

/-- A window changes and is drawn. -/
theorem set_drawWindow_isSome_iff (distinct : (m.layers.map Layer.address).Nodup) {layer : Layer}
    (member : layer ∈ m.layers) (window : Window) (id : Nat) :
    ((m.set { layer with window }).drawWindow id).isSome ↔ m.IsShown id := by
  have addresses : (m.keys.map Key.address).Nodup := by
    rw [keys, List.map_map]
    exact distinct
  have same : SameKeys m (m.set { layer with window }) := sameKeys_set addresses member rfl
  rw [drawWindow_isSome_iff, same.isShown_iff]

/-- A layer that is shown exists. -/
theorem IsShown.findLayer (shown : m.IsShown id) : ∃ layer, m.findLayer id = some layer := by
  obtain ⟨layer, member, same⟩ := shown
  obtain ⟨address, -, found⟩ := List.mem_filterMap.mp member
  rw [← Option.isSome_iff_exists, LayerManager.findLayer, List.find?_isSome]
  exact ⟨layer, List.mem_of_find?_eq_some found, by simpa using same⟩

end LayerManager

section

variable {d : Desktop} (distinct : (d.manager.layers.map Layer.address).Nodup)

include distinct

theorem Desktop.deactivate_isSome_iff :
    d.deactivate.isSome ↔ d.activeLayer = 0 ∨ d.manager.IsShown d.activeLayer := by
  rw [Desktop.deactivate]
  by_cases isActive : 0 < d.activeLayer
  · rw [if_pos isActive, or_iff_right isActive.ne']
    cases found : d.manager.findLayer d.activeLayer with
    | none =>
        refine iff_of_false Bool.false_ne_true fun shown => ?_
        obtain ⟨layer, exists'⟩ := shown.findLayer
        exact Option.some_ne_none _ (exists'.symm.trans found)
    | some layer =>
        rw [← set_drawWindow_isSome_iff distinct (List.mem_of_find?_eq_some found)
          layer.window.deactivate d.activeLayer]
        change (Option.bind ((d.manager.set _).drawWindow d.activeLayer) _).isSome ↔ _
        cases (d.manager.set { layer with window := layer.window.deactivate }).drawWindow
          d.activeLayer <;> rfl
  · rw [if_neg isActive]
    exact iff_of_true rfl (.inl (by omega))

theorem Desktop.activate_zero_isSome_iff :
    (d.activate 0).isSome ↔ d.activeLayer = 0 ∨ d.manager.IsShown d.activeLayer := by
  rw [Desktop.activate]
  by_cases already : d.activeLayer = 0
  · rw [if_pos already]
    exact iff_of_true rfl (.inl already)
  · rw [if_neg already, ← d.deactivate_isSome_iff distinct]
    cases d.deactivate <;> rfl

end

/-! ## Strings with an end -/

namespace Font

variable (font : Font) {mem : Mem} {rounds : Nat}

/-- All that is drawn of a string is drawn until its end. -/
theorem writeString_subset {s : Nat} (ended : ends mem rounds s) (pos : Vector2D)
    (rounds' x : Nat) :
    font.writeString mem pos rounds' s x ⊆ font.writeString mem pos rounds s x := by
  induction rounds generalizing rounds' s x with
  | zero => exact absurd ended Bool.false_ne_true
  | succ rounds ih =>
      cases rounds' with
      | zero => exact List.nil_subset _
      | succ rounds' =>
          rw [ends, Bool.or_eq_true, decide_eq_true_eq] at ended
          rw [writeString, writeString]
          by_cases stop : charAt mem s 0 = 0
          · rw [if_pos stop]
            exact List.nil_subset _
          · rw [if_neg stop, if_neg stop]
            have rest := ih (ended.resolve_left stop) rounds'
              (x + if isHankaku (convertUTF8To32 mem s).1 then 1 else 2)
            exact List.append_subset.mpr ⟨List.subset_append_left _ _,
              fun p member => List.subset_append_right _ _ (rest member)⟩

/-- A round after the end of a string changes nothing. -/
theorem writeString_succ {s : Nat} (ended : ends mem rounds s) (pos : Vector2D) (x : Nat) :
    ends mem (rounds + 1) s ∧
      font.writeString mem pos (rounds + 1) s x = font.writeString mem pos rounds s x := by
  induction rounds generalizing s x with
  | zero => exact absurd ended Bool.false_ne_true
  | succ rounds ih =>
      rw [ends, Bool.or_eq_true, decide_eq_true_eq] at ended
      rw [ends, Bool.or_eq_true, decide_eq_true_eq, writeString, writeString]
      by_cases stop : charAt mem s 0 = 0
      · rw [if_pos stop, if_pos stop]
        exact ⟨.inl stop, rfl⟩
      · rw [if_neg stop, if_neg stop]
        have rest := ih (ended.resolve_left stop)
          (x + if isHankaku (convertUTF8To32 mem s).1 then 1 else 2)
        exact ⟨.inr rest.1, congrArg _ rest.2⟩

end Font

/-! ## Outcomes -/

variable {d : Desktop} {layerIdFlags : UInt64} {layer : Layer}
  {f : Window → Option (Window × Result)}

theorem doWinFunc_of_missing (missing : d.manager.findLayer (layerIdFlags.toNat % 2 ^ 32) = none) :
    doWinFunc d layerIdFlags f = some (d, ⟨0, ebadf⟩) := by
  rw [doWinFunc]
  dsimp only
  rw [missing]

/-- A function that succeeds on an existing window, whose layer is then drawn. -/
theorem doWinFunc_of_succeeds
    (found : d.manager.findLayer (layerIdFlags.toNat % 2 ^ 32) = some layer)
    (succeeds : ∀ outcome, f layer.window = some outcome → outcome.2 = ⟨0, 0⟩) :
    doWinFunc d layerIdFlags f = (f layer.window).bind fun outcome =>
      let manager := d.manager.set { layer with window := outcome.1 }
      if layerIdFlags.toNat / 2 ^ 32 % 2 = 0 then
        (manager.drawWindow (layerIdFlags.toNat % 2 ^ 32)).map fun manager =>
          ({ d with manager }, ⟨0, 0⟩)
      else some ({ d with manager }, ⟨0, 0⟩) := by
  rw [doWinFunc]
  dsimp only
  rw [found]
  dsimp only
  cases drawn : f layer.window with
  | none => rfl
  | some outcome =>
      rcases outcome with ⟨window, res⟩
      cases succeeds _ drawn
      simp only [Option.bind_eq_bind, Option.bind_some, ne_eq, not_true_eq_false, if_false]
      split
      · cases (d.manager.set { layer with window }).drawWindow (layerIdFlags.toNat % 2 ^ 32) with
        | none => rfl
        | some manager => rfl
      · rfl

theorem doWinFunc_of_found (distinct : (d.manager.layers.map Layer.address).Nodup)
    (found : d.manager.findLayer (layerIdFlags.toNat % 2 ^ 32) = some layer)
    (succeeds : ∀ outcome, f layer.window = some outcome → outcome.2 = ⟨0, 0⟩) :
    ((doWinFunc d layerIdFlags f).isSome ↔ (f layer.window).isSome ∧
      (layerIdFlags.toNat / 2 ^ 32 % 2 = 0 →
        d.manager.IsShown (layerIdFlags.toNat % 2 ^ 32))) ∧
    ∀ outcome, doWinFunc d layerIdFlags f = some outcome → outcome.2.error = 0 := by
  rw [doWinFunc_of_succeeds found succeeds]
  cases f layer.window with
  | none => exact ⟨iff_of_false Bool.false_ne_true fun both => Bool.false_ne_true both.1,
      fun outcome returned => absurd returned.symm (Option.some_ne_none _)⟩
  | some outcome =>
      have shown := set_drawWindow_isSome_iff distinct (List.mem_of_find?_eq_some found) outcome.1
        (layerIdFlags.toNat % 2 ^ 32)
      rw [Option.bind_some]
      dsimp only
      split
      · rename_i redraws
        rw [Option.isSome_map, shown]
        refine ⟨⟨fun drawn => ⟨rfl, fun _ => drawn⟩, fun both => both.2 redraws⟩,
          fun outcome returned => ?_⟩
        obtain ⟨manager, -, rfl⟩ := Option.map_eq_some_iff.mp returned
        rfl
      · rename_i flagged
        refine ⟨iff_of_true rfl ⟨rfl, fun redraws => absurd redraws flagged⟩,
          fun outcome returned => ?_⟩
        cases returned
        rfl

theorem closeWindow_of_found (distinct : (d.manager.layers.map Layer.address).Nodup)
    (found : d.manager.findLayer (layerIdFlags.toNat % 2 ^ 32) = some layer) :
    ((closeWindow d layerIdFlags).isSome ↔
      d.activeLayer = 0 ∨ d.manager.IsShown d.activeLayer) ∧
    ∀ outcome, closeWindow d layerIdFlags = some outcome → outcome.2.error = 0 := by
  rw [← d.activate_zero_isSome_iff distinct, closeWindow]
  dsimp only
  rw [found]
  cases d.activate 0 with
  | none => exact ⟨Iff.rfl, fun outcome returned => absurd returned.symm (Option.some_ne_none _)⟩
  | some d' =>
      refine ⟨Iff.rfl, fun outcome returned => ?_⟩
      cases returned
      rfl

variable (font : Font) (mem : Mem)

namespace DrawCall

theorem drawIn_isSome_iff (rounds : Nat) (call : DrawCall) (win : Window) :
    (call.drawIn font mem rounds win).isSome ↔
      ∀ write ∈ call.writes font mem rounds, (outline win.size).Contains write.1.x write.1.y := by
  rw [drawIn, Option.isSome_map, Window.writeAll_isSome_iff]

theorem drawIn_succeeds (rounds : Nat) (call : DrawCall) (win : Window)
    (outcome : Window × Result) (drawn : call.drawIn font mem rounds win = some outcome) :
    outcome.2 = ⟨0, 0⟩ := by
  obtain ⟨win', -, rfl⟩ := Option.map_eq_some_iff.mp drawn
  rfl

/-- The writes until the end of a string are all that are ever made. -/
theorem admits_iff_of_ends {size : Vector2D} (allocated : Allocated size) {rounds : Nat}
    {arg1 arg2 arg3 arg4 arg5 : UInt64} (ended : Font.ends mem rounds arg5.toNat) :
    (∀ write ∈ (winWriteString arg1 arg2 arg3 arg4 arg5).writes font mem rounds,
        (outline size).Contains write.1.x write.1.y) ↔
      (winWriteString arg1 arg2 arg3 arg4 arg5).Admits font mem size := by
  rw [← writes_inside_iff font mem allocated]
  refine ⟨fun inside rounds' write member => inside write ?_, fun inside => inside rounds⟩
  exact List.map_subset _ (font.writeString_subset ended _ rounds' 0) member

end DrawCall

namespace WinCall

theorem perform_of_missing (rounds : Nat) {call : WinCall}
    (missing : d.manager.findLayer call.layerId = none) :
    call.perform font mem rounds d = some (d, if call.closes then ⟨ebadf, 0⟩ else ⟨0, ebadf⟩) := by
  have refuses (f : Window → Option (Window × Result)) :
      doWinFunc d call.arg1 f = some (d, ⟨0, ebadf⟩) := doWinFunc_of_missing missing
  cases call with
  | draw call =>
      cases call with
      | winWriteString =>
          rw [perform, winWriteString]
          exact refuses _
      | winFillRectangle => exact refuses _
      | winDrawLine => exact refuses _
  | winRedraw =>
      rw [perform, Screen.winRedraw]
      exact refuses _
  | closeWindow arg1 =>
      have none_found : d.manager.findLayer (arg1.toNat % 2 ^ 32) = none := missing
      rw [perform, Screen.closeWindow]
      dsimp only
      rw [none_found]
      rfl

/-- A drawing call of which the rounds do not matter, on an existing window. -/
theorem drawIn_of_found (distinct : (d.manager.layers.map Layer.address).Nodup)
    (allocated : Allocated layer.window.size) (call : DrawCall)
    (same : ∀ rounds, call.writes font mem rounds = call.writes font mem 0)
    (ends : call.Ends mem) (found : d.manager.findLayer (draw call).layerId = some layer) :
    ((∃ rounds, (doWinFunc d (draw call).arg1 (call.drawIn font mem rounds)).isSome) ↔
        (draw call).Proper font mem d layer) ∧
      ∀ rounds outcome, doWinFunc d (draw call).arg1 (call.drawIn font mem rounds) = some outcome →
        outcome.2.error = 0 := by
  have each (rounds : Nat) := doWinFunc_of_found distinct found
    (call.drawIn_succeeds font mem rounds layer.window)
  have inside : (∀ write ∈ call.writes font mem 0,
      (outline layer.window.size).Contains write.1.x write.1.y) ↔
        call.Admits font mem layer.window.size := by
    rw [← DrawCall.writes_inside_iff font mem allocated]
    exact ⟨fun first rounds => by rwa [same], fun all => all 0⟩
  refine ⟨⟨?_, ?_⟩, fun rounds => (each rounds).2⟩
  · rintro ⟨rounds, returns⟩
    rw [(each rounds).1, DrawCall.drawIn_isSome_iff, same, inside] at returns
    exact ⟨returns.1, ends, returns.2⟩
  · rintro ⟨admits, -, shown⟩
    refine ⟨0, (each 0).1.mpr ⟨?_, shown⟩⟩
    rw [DrawCall.drawIn_isSome_iff, inside]
    exact admits

/-- `WinWriteString` on an existing window; the rounds have to reach the end of the string. -/
theorem winWriteString_of_found (distinct : (d.manager.layers.map Layer.address).Nodup)
    (allocated : Allocated layer.window.size) {arg1 arg2 arg3 arg4 arg5 : UInt64}
    (found : d.manager.findLayer (arg1.toNat % 2 ^ 32) = some layer) :
    ((∃ rounds, (winWriteString font mem rounds d arg1 arg2 arg3 arg4 arg5).isSome) ↔
        (draw (.winWriteString arg1 arg2 arg3 arg4 arg5)).Proper font mem d layer) ∧
      ∀ rounds outcome, winWriteString font mem rounds d arg1 arg2 arg3 arg4 arg5 = some outcome →
        outcome.2.error = 0 := by
  let drawing (rounds : Nat) (win : Window) :=
    if Font.ends mem rounds arg5.toNat then
      (DrawCall.winWriteString arg1 arg2 arg3 arg4 arg5).drawIn font mem rounds win
    else none
  have succeeds (rounds : Nat) (outcome : Window × Result)
      (drawn : drawing rounds layer.window = some outcome) : outcome.2 = ⟨0, 0⟩ := by
    simp only [drawing] at drawn
    split at drawn
    · exact DrawCall.drawIn_succeeds font mem rounds _ _ outcome drawn
    · cases drawn
  have each (rounds : Nat) := doWinFunc_of_found distinct found (succeeds rounds)
  refine ⟨⟨?_, ?_⟩, fun rounds => (each rounds).2⟩
  · rintro ⟨rounds, returns⟩
    obtain ⟨drawn, shown⟩ := (each rounds).1.mp returns
    simp only [drawing] at drawn
    split at drawn
    · rename_i ended
      rw [DrawCall.drawIn_isSome_iff, DrawCall.admits_iff_of_ends font mem allocated ended]
        at drawn
      exact ⟨drawn, ⟨rounds, ended⟩, shown⟩
    · exact absurd drawn Bool.false_ne_true
  · rintro ⟨admits, ⟨rounds, ended⟩, shown⟩
    refine ⟨rounds, (each rounds).1.mpr ⟨?_, shown⟩⟩
    simp only [drawing]
    rw [if_pos ended, DrawCall.drawIn_isSome_iff,
      DrawCall.admits_iff_of_ends font mem allocated ended]
    exact admits

/-- `WinRedraw` on an existing window, which changes nothing in it. -/
theorem winRedraw_of_found (distinct : (d.manager.layers.map Layer.address).Nodup)
    {arg1 : UInt64} (found : d.manager.findLayer (arg1.toNat % 2 ^ 32) = some layer) :
    ((Screen.winRedraw d arg1).isSome ↔ (winRedraw arg1).Proper font mem d layer) ∧
      ∀ outcome, Screen.winRedraw d arg1 = some outcome → outcome.2.error = 0 := by
  let redrawing (win : Window) : Option (Window × Result) := some (win, ⟨0, 0⟩)
  have succeeds (outcome : Window × Result)
      (drawn : redrawing layer.window = some outcome) : outcome.2 = ⟨0, 0⟩ := by
    cases drawn
    rfl
  obtain ⟨returns, quiet⟩ := doWinFunc_of_found distinct found succeeds
  exact ⟨returns.trans (and_iff_right rfl), quiet⟩

/-- A call on an existing window never reports an error, and has an outcome if it is proper. -/
theorem perform_of_found (distinct : (d.manager.layers.map Layer.address).Nodup)
    {call : WinCall} (found : d.manager.findLayer call.layerId = some layer)
    (allocated : Allocated layer.window.size) :
    ((∃ rounds, (call.perform font mem rounds d).isSome) ↔ call.Proper font mem d layer) ∧
      ∀ rounds outcome, call.perform font mem rounds d = some outcome → outcome.2.error = 0 := by
  cases call with
  | draw call =>
      cases call with
      | winWriteString => exact winWriteString_of_found font mem distinct allocated found
      | winFillRectangle =>
          exact drawIn_of_found font mem distinct allocated (.winFillRectangle ..) (fun _ => rfl)
            trivial found
      | winDrawLine =>
          exact drawIn_of_found font mem distinct allocated (.winDrawLine ..) (fun _ => rfl) trivial
            found
  | winRedraw arg1 =>
      obtain ⟨returns, quiet⟩ := winRedraw_of_found font mem distinct found
      exact ⟨exists_const Nat |>.trans returns, fun _ => quiet⟩
  | closeWindow arg1 =>
      obtain ⟨returns, quiet⟩ := closeWindow_of_found distinct found
      exact ⟨exists_const Nat |>.trans returns, fun _ => quiet⟩

/-- A call reports exactly the missing windows, unless it is to close a missing one; on an existing
window it has to be proper. -/
theorem reports_iff (distinct : (d.manager.layers.map Layer.address).Nodup)
    (allocated : ∀ layer ∈ d.manager.layers, Allocated layer.window.size) (call : WinCall) :
    call.Reports font mem d ↔
      (call.closes → d.manager.findLayer call.layerId ≠ none) ∧
        ∀ layer ∈ d.manager.findLayer call.layerId, call.Proper font mem d layer := by
  cases found : d.manager.findLayer call.layerId with
  | none =>
      have result (rounds : Nat) := perform_of_missing font mem rounds found
      rw [Reports, found]
      cases closes : call.closes with
      | true =>
          refine iff_of_false ?_ fun condition => condition.1 rfl rfl
          rintro ⟨rounds, d', r, returned, reports, -⟩
          rw [result, closes] at returned
          cases returned
          exact reports.mpr rfl rfl
      | false =>
          refine iff_of_true ⟨0, d, ⟨0, ebadf⟩, ?_, iff_of_true (by decide) rfl, fun _ => rfl⟩
            ⟨fun isClose => absurd isClose Bool.false_ne_true, fun layer isFound => nomatch isFound⟩
          rw [result, closes]
          rfl
  | some layer =>
      obtain ⟨returns, quiet⟩ := perform_of_found font mem distinct found
        (allocated layer (List.mem_of_find?_eq_some found))
      rw [Reports, found]
      constructor
      · rintro ⟨rounds, d', r, returned, -⟩
        refine ⟨fun _ missing => Option.some_ne_none _ missing, fun other same => ?_⟩
        cases same
        exact returns.mp ⟨rounds, by rw [returned]; rfl⟩
      · rintro ⟨-, proper⟩
        obtain ⟨rounds, isSome⟩ := returns.mpr (proper layer rfl)
        obtain ⟨⟨d', r⟩, returned⟩ := Option.isSome_iff_exists.mp isSome
        refine ⟨rounds, d', r, returned, iff_of_false ?_ (Option.some_ne_none _), ?_⟩
        · exact not_not.mpr (quiet rounds _ returned)
        · exact fun missing => absurd missing (Option.some_ne_none _)

/-- The result does not depend on the rounds that are allowed. -/
theorem perform_succ {rounds : Nat} {call : WinCall} {outcome : Desktop × Result}
    (returned : call.perform font mem rounds d = some outcome) :
    call.perform font mem (rounds + 1) d = some outcome := by
  cases call with
  | draw call =>
      cases call with
      | winWriteString arg1 arg2 arg3 arg4 arg5 =>
          rw [perform, winWriteString] at returned ⊢
          by_cases ended : Font.ends mem rounds arg5.toNat
          · have further := font.writeString_succ ended ⟨toInt arg2, toInt arg3⟩ 0
            simp only [if_pos ended, if_pos further.1, DrawCall.drawIn, DrawCall.writes, further.2]
              at returned ⊢
            exact returned
          · cases found : d.manager.findLayer (arg1.toNat % 2 ^ 32) with
            | none =>
                rw [doWinFunc_of_missing found] at returned ⊢
                exact returned
            | some layer =>
                simp only [doWinFunc, found, if_neg ended] at returned
                cases returned
      | winFillRectangle => exact returned
      | winDrawLine => exact returned
  | winRedraw => exact returned
  | closeWindow => exact returned

end WinCall

/-- `CloseWindow` does what `CloseLayer` does. -/
theorem closeWindow_eq (d : Desktop) (arg1 : UInt64) :
    closeWindow d arg1 = (d.closeLayer (arg1.toNat % 2 ^ 32)).map fun outcome =>
      (outcome.1, if outcome.2 = .success then ⟨0, 0⟩ else ⟨ebadf, 0⟩) := by
  rw [closeWindow, Desktop.closeLayer]
  cases d.manager.findLayer (arg1.toNat % 2 ^ 32) with
  | none => rfl
  | some layer =>
      dsimp only
      cases d.activate 0 <;> rfl

/-! ## A desktop with one window -/

namespace WinCall

/-- One window, with the id 1. -/
def smallDesktop : Desktop where
  manager := DrawCall.smallManager
  activeLayer := 0
  mouseLayer := 0
  layerTaskMap _ := none
  messages := []

theorem reports_iff_smallDesktop :
    (winRedraw 1).Reports DrawCall.noFont (fun _ => 0) smallDesktop ↔
      ((winRedraw 1).closes → smallDesktop.manager.findLayer (winRedraw 1).layerId ≠ none) ∧
        ∀ layer ∈ smallDesktop.manager.findLayer (winRedraw 1).layerId,
          (winRedraw 1).Proper DrawCall.noFont (fun _ => 0) smallDesktop layer := by
  apply reports_iff
  · decide
  · intro layer member
    rw [List.mem_singleton.mp member]
    constructor <;> decide

/-- `CloseWindow` of a window that does not exist. -/
theorem not_reports_closeWindow :
    smallDesktop.manager.findLayer (closeWindow 5).layerId = none ∧
      ¬(closeWindow 5).Reports DrawCall.noFont (fun _ => 0) smallDesktop := by
  refine ⟨rfl, ?_⟩
  rintro ⟨rounds, d', r, returned, reports, -⟩
  rw [perform_of_missing _ _ rounds rfl] at returned
  cases returned
  exact reports.mpr rfl rfl

end WinCall
end Mikanos.Screen
