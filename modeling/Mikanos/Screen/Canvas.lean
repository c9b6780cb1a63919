import Mikanos.Screen.Showing

/-!
# Runs of a desktop that is repainted

Everything that happens to windows between two complete drawings: they are opened, activated and
closed, moved, drawn again as a whole or in part, and written to by their tasks.
-/

namespace Mikanos.Screen

open Painting Transition LayerManager

/-- The desktop, and the pixels of the screen that are not expected to be right. -/
structure Canvas where
  desktop : Desktop
  stale : Int × Int → Bool

namespace Canvas

/-- What happens to the windows. -/
inductive Event
  /-- `NewLayer`, `SetWindow`, `SetDraggable(true)`, `Layer::Move` -/
  | newLayer (window : Window) (pos : Vector2D)
  /-- `ActiveLayer::Activate` -/
  | activate (id : Nat)
  /-- `CloseLayer` or the `CloseWindow` system call -/
  | closeLayer (id : Nat)
  /-- `LayerManager::Move` -/
  | move (id : Nat) (newPos : Vector2D)
  /-- `LayerManager::MoveRelative` -/
  | moveRelative (id : Nat) (posDiff : Vector2D)
  /-- `Draw(area)` -/
  | draw (area : Rectangle)
  /-- `Draw(id, area)`, which is `Draw(id)` for an area of negative size -/
  | drawLayer (id : Nat) (area : Rectangle)
  /-- `Window::Write` in the window of a layer -/
  | write (id : Nat) (pos : Vector2D) (c : PixelColor)

/-- The code that is run; `none` if it dereferences a null pointer, uses `window_area` without
having set it, or writes beside the window. -/
def act (d : Desktop) : Event → Option Desktop
  | .newLayer window pos => some { d with manager := (d.manager.newLayer window true pos).1 }
  | .activate id => d.activate id
  | .closeLayer id => (d.closeLayer id).map Prod.fst
  | .move id newPos => (d.manager.move id newPos).map fun manager => { d with manager }
  | .moveRelative id posDiff =>
      (d.manager.moveRelative id posDiff).map fun manager => { d with manager }
  | .draw area => some { d with manager := d.manager.draw area }
  | .drawLayer id area => (d.manager.drawLayer id area).map fun manager => { d with manager }
  | .write id pos c => do
      let layer ← d.manager.findLayer id
      let window ← layer.window.write pos c
      some { d with manager := d.manager.set { layer with window } }

/-- The rectangles in which a moved layer is drawn.  A layer with a transparent colour does not
hide what is below it. -/
def movedAreas (l : Layer) (newPos : Vector2D) : List Rectangle :=
  l.area :: if l.window.transparentColor = none then [⟨newPos, l.window.size⟩] else []

/-- Where everything is drawn again. -/
def repainted (d : Desktop) : Event → List Rectangle
  | .newLayer _ _ => []
  | .activate id => if d.activeLayer = id then [] else d.areas d.activeLayer ++ d.areas id
  | .closeLayer id => d.areas d.activeLayer ++ d.areas id
  | .move id newPos =>
      match d.manager.findLayer id with
      | none => []
      | some l => movedAreas l newPos
  | .moveRelative id posDiff =>
      match d.manager.findLayer id with
      | none => []
      | some l => movedAreas l (l.pos + posDiff)
  | .draw area => [area]
  | .drawLayer id area =>
      match d.manager.findLayer id with
      | none => []
      | some l => if l.window.transparentColor = none then [windowArea l area] else []
  | .write _ _ _ => []

/-- The pixel of the screen that a task has written to, if its window is not covered there. -/
def written (d : Desktop) : Event → Option (Int × Int)
  | .write id pos _ => (d.manager.findLayer id).map fun l => ((l.pos + pos).x, (l.pos + pos).y)
  | _ => none

/-- One step. -/
def step (s : Canvas) (event : Event) : Option Canvas :=
  (act s.desktop event).map fun desktop =>
    { desktop
      stale := fun p =>
        (s.stale p || decide (written s.desktop event = some p)) &&
          !(repainted s.desktop event).any fun area => area.Contains p.1 p.2 }

/-- Windows that are opened have no transparent colour, and the ids of layers do not wrap.  Windows
are activated and closed if they can be dragged; layers are moved and drawn while they are shown;
the background stays where it is. -/
def Admits (background : Nat) (s : Canvas) : Event → Prop
  | .newLayer window _ =>
      s.desktop.manager.latestId + 1 < 2 ^ 32 ∧ window.transparentColor = none
  | .activate id => id = 0 ∨ s.desktop.Draggable id
  | .closeLayer id => s.desktop.Draggable id
  | .move id _ => id ≠ background ∧ s.desktop.Shown id
  | .moveRelative id _ => id ≠ background ∧ s.desktop.Shown id
  | .draw _ => True
  | .drawLayer id _ => s.desktop.Shown id
  | .write id pos _ =>
      ∃ layer ∈ s.desktop.manager.findLayer id, (outline layer.window.size).Contains pos.x pos.y

/-- The invariant: what is not stale is shown. -/
structure Valid (background mouse bottomId : Nat) (s : Canvas) : Prop where
  inv : Inv background mouse s.desktop
  looks : Looks background mouse s.desktop.manager
  bottom : ∃ draggable, (⟨background, bottomId, draggable⟩ : Key) ∈ s.desktop.manager.keys
  shows : ∀ p, s.desktop.manager.OnScreen p → s.stale p = false → s.desktop.manager.ShowsAt p

variable {background mouse bottomId : Nat} {s : Canvas} {d : Desktop}

/-- What an event has to do: draw the rectangles, and leave alone what is not written to. -/
structure Does (background mouse : Nat) (d : Desktop) (event : Event) (d' : Desktop) : Prop where
  acts : act d event = some d'
  inv : Inv background mouse d'
  looks : Looks background mouse d'.manager
  kept : ∀ key ∈ d.manager.keys, key.address = background → key ∈ d'.manager.keys
  size : d'.manager.screen.size = d.manager.screen.size
  shows : ∀ p, d.manager.OnScreen p →
    Among (repainted d event) p ∨ written d event ≠ some p ∧ d.manager.ShowsAt p →
      d'.manager.ShowsAt p

/-- Such an event keeps the invariant. -/
theorem Valid.step (valid : s.Valid background mouse bottomId) {event : Event} {d' : Desktop}
    (does : Does background mouse s.desktop event d') :
    ∃ s', s.step event = some s' ∧ s'.Valid background mouse bottomId := by
  refine ⟨_, congrArg (Option.map _) does.acts, does.inv, does.looks, ?_, ?_⟩
  · obtain ⟨draggable, member⟩ := valid.bottom
    exact ⟨draggable, does.kept _ member rfl⟩
  · intro p on fresh
    have on' : s.desktop.manager.OnScreen p := by
      rw [OnScreen, FrameBuffer.outline, ← does.size]
      exact on
    dsimp only at fresh
    rw [Bool.and_eq_false_iff, Bool.or_eq_false_iff, decide_eq_false_iff_not,
      Bool.not_eq_false', List.any_eq_true] at fresh
    refine does.shows p on' ?_
    rcases fresh with ⟨fresh, notWritten⟩ | ⟨area, member, inside⟩
    · exact .inr ⟨notWritten, valid.shows p on' fresh⟩
    · exact .inl ⟨area, member, of_decide_eq_true inside⟩

/-- From what is drawn. -/
theorem Does.of_redrawn {event : Event} {d' : Desktop} (acts : act d event = some d')
    (inv : Inv background mouse d') (looks : Looks background mouse d'.manager)
    (kept : ∀ key ∈ d.manager.keys, key.address = background → key ∈ d'.manager.keys)
    (redrawn : Redrawn d (repainted d event) d') : Does background mouse d event d' where
  acts := acts
  inv := inv
  looks := looks
  kept := kept
  size := redrawn.size
  shows := fun p on case => redrawn.shows p on (case.imp_right And.right)

/-! ## One event -/

/-- A layer that is shown, by its id. -/
theorem exists_layer (inv : Inv background mouse d) {id : Nat} (shown : d.Shown id) :
    ∃ l, d.manager.findLayer id = some l := by
  obtain ⟨key, member, rfl, -⟩ := shown
  obtain ⟨l, found, -⟩ := inv.orderly.findLayer member
  exact ⟨l, found⟩

/-- It is not the background if it has another id. -/
theorem ne_background (inv : Inv background mouse d) {draggable : Bool}
    (bottom : (⟨background, bottomId, draggable⟩ : Key) ∈ d.manager.keys) {id : Nat} {l : Layer}
    (found : d.manager.findLayer id = some l) (other : id ≠ bottomId) : l.address ≠ background := by
  intro same
  have member : l.key ∈ d.manager.keys := List.mem_map_of_mem (List.mem_of_find?_eq_some found)
  have isKey := List.inj_on_of_nodup_map inv.addresses member bottom same
  have here : l.id = id := by simpa using List.find?_some found
  exact other (here.symm.trans (congrArg Key.id isKey))

section

variable (inv : Inv background mouse d) (looks : Looks background mouse d.manager)

include inv looks

/-- A new layer is not in the stack. -/
theorem does_newLayer (room : d.manager.latestId + 1 < 2 ^ 32) {window : Window}
    (solid : window.transparentColor = none) (pos : Vector2D) :
    ∃ d', Does background mouse d (.newLayer window pos) d' := by
  have shown : (d.manager.newLayer window true pos).1.shown = d.manager.shown := by
    rw [LayerManager.shown, LayerManager.shown]
    apply List.filterMap_congr
    intro a inStack
    obtain ⟨key, member, rfl⟩ := inv.owned a inStack
    obtain ⟨l, found, -⟩ := inv.orderly.layerAt member
    have first : d.manager.layers.find? (fun l => l.address = key.address) = some l := found
    rw [layerAt, layerAt, newLayer, List.find?_append, first]
    rfl
  have picture : (d.manager.newLayer window true pos).1.picture = d.manager.picture := by
    rw [LayerManager.picture, shown]
    rfl
  refine ⟨_, .of_redrawn rfl (inv.newLayer room window pos) ?_ ?_ ⟨rfl, ?_⟩⟩
  · refine ⟨looks.sizes, ?_, ?_⟩
    · intro l member other
      rcases List.mem_append.mp member with old | new
      · exact looks.solid l old other
      · rw [List.mem_singleton.mp new]
        exact solid
    · intro l member atBottom
      rcases List.mem_append.mp member with old | new
      · exact looks.covers l old atBottom
      · rw [List.mem_singleton.mp new] at atBottom
        obtain ⟨id, bottom⟩ := inv.bottom
        exact absurd (inv.address_lt _ bottom) (by
          change ¬ background < d.manager.nextAddress
          rw [← show d.manager.nextAddress = background from atBottom]
          exact lt_irrefl _)
  · intro key member _
    rw [keys_newLayer]
    exact List.mem_append_left _ member
  · rintro p - (⟨area, none, -⟩ | shows)
    · cases none
    · exact showsAt_congr (m := d.manager) (congrFun picture p) rfl rfl shows

/-- `Activate`. -/
theorem does_activate {id : Nat} (allowed : id = 0 ∨ d.Draggable id) :
    ∃ d', Does background mouse d (.activate id) d' := by
  by_cases already : d.activeLayer = id
  · refine ⟨d, .of_redrawn (if_pos already) inv looks (fun _ member _ => member) ?_⟩
    rw [repainted, if_pos already]
    exact .refl d
  · rcases allowed with rfl | ⟨key, member, rfl, draggable⟩
    · obtain ⟨d', activated, inv', looks', same, redrawn, -⟩ := inv.activate_zero_redrawn looks
      refine ⟨d', .of_redrawn activated inv' looks' ?_ ?_⟩
      · intro key member _
        rw [same.manager.keys]
        exact member
      · rw [repainted, if_neg already, inv.areas_zero, List.append_nil]
        exact redrawn
    · obtain ⟨d', activated, inv', looks', redrawn⟩ :=
        inv.activate_redrawn looks member draggable already
      obtain ⟨middle, stack⟩ := inv.ends
      obtain ⟨d'', activated', keys', -⟩ := inv.activate_layer member draggable already stack
      rw [activated] at activated'
      cases activated'
      refine ⟨d', .of_redrawn activated inv' looks' ?_ ?_⟩
      · intro key member _
        rw [keys']
        exact member
      · rw [repainted, if_neg already]
        exact redrawn

/-- `CloseLayer`. -/
theorem does_closeLayer {id : Nat} (allowed : d.Draggable id) :
    ∃ d', Does background mouse d (.closeLayer id) d' := by
  obtain ⟨key, member, rfl, draggable⟩ := allowed
  obtain ⟨d', closed, inv', looks', redrawn⟩ := inv.closeLayer_redrawn looks member draggable
  obtain ⟨d'', closed', keys', -⟩ := inv.orderly.closeLayer member
  rw [closed] at closed'
  cases closed'
  refine ⟨d', .of_redrawn (by rw [act, closed]; rfl) inv' looks' ?_ redrawn⟩
  intro other isKey atBottom
  rw [keys']
  refine List.mem_filter.mpr ⟨isKey, ?_⟩
  have differ : other.id ≠ key.id := by
    intro same
    have isSame := List.inj_on_of_nodup_map inv.ids isKey member same
    exact (inv.ne_of_draggable member draggable).1 (isSame ▸ atBottom)
  simpa using differ

/-- A layer comes to another place. -/
theorem does_reposition {id : Nat} (shown : d.Shown id) {l : Layer}
    (found : d.manager.findLayer id = some l) (notBackground : l.address ≠ background)
    (newPos : Vector2D) {event : Event}
    (acts : act d event = (((d.manager.set { l with pos := newPos }).draw l.area).drawWindow id).map
      fun manager => { d with manager })
    (areas : repainted d event = movedAreas l newPos) :
    ∃ d', Does background mouse d event d' := by
  obtain ⟨m', drawn, same, looks', size, shows⟩ := inv.moved looks shown found notBackground newPos
  have inv' : Inv background mouse { d with manager := m' } := inv.sameKeys same rfl rfl
  refine ⟨{ d with manager := m' }, ?_, inv', looks', ?_, size, ?_⟩
  · rw [acts, drawn]
    rfl
  · intro key member _
    rw [same.keys]
    exact member
  · intro p on case
    refine shows p on ?_
    rw [areas, movedAreas] at case
    rcases case with ⟨area, member, inside⟩ | ⟨-, before⟩
    · rcases List.mem_cons.mp member with rfl | later
      · exact .inl inside
      · split at later
        · rename_i noColor
          rw [List.mem_singleton.mp later] at inside
          exact .inr (.inr ⟨noColor, inside⟩)
        · cases later
    · exact .inr (.inl before)

/-- `Draw(area)`. -/
theorem does_draw (area : Rectangle) : ∃ d', Does background mouse d (.draw area) d' := by
  have inv' : Inv background mouse { d with manager := d.manager.draw area } :=
    inv.sameKeys (sameKeys_draw _ _) rfl rfl
  refine ⟨_, rfl, inv', Inv.draw_looks looks area, fun _ member _ => member, rfl, ?_⟩
  intro p on case
  have shows := inv.draw_shows looks area on
  rcases case with ⟨area', member, inside⟩ | ⟨-, before⟩
  · rw [repainted, List.mem_singleton] at member
    exact shows.2 (member ▸ inside)
  · exact shows.1 before

/-- `Draw(id, area)`. -/
theorem does_drawLayer {id : Nat} (shown : d.Shown id) (area : Rectangle) :
    ∃ d', Does background mouse d (.drawLayer id area) d' := by
  obtain ⟨l, m', found, drawn, looks', shows⟩ := inv.drawLayer_shows looks shown area
  have same := sameKeys_drawLayer drawn
  have inv' : Inv background mouse { d with manager := m' } := inv.sameKeys same rfl rfl
  refine ⟨{ d with manager := m' }, by rw [act, drawn]; rfl, inv', looks', ?_, ?_, ?_⟩
  · intro key member _
    rw [same.keys]
    exact member
  · rw [LayerManager.drawLayer] at drawn
    split at drawn
    · cases drawn
    · cases drawn
      rfl
  · intro p on case
    rcases case with ⟨area', member, inside⟩ | ⟨-, before⟩
    · simp only [repainted, found] at member
      split at member
      · rename_i noColor
        rw [List.mem_singleton.mp member] at inside
        exact (shows p on).2 inside (.inl noColor)
      · cases member
    · exact (shows p on).1 before

/-- `Window::Write`. -/
theorem does_write {id : Nat} {pos : Vector2D} (c : PixelColor) {l : Layer}
    (found : d.manager.findLayer id = some l)
    (inside : (outline l.window.size).Contains pos.x pos.y) :
    ∃ d', Does background mouse d (.write id pos c) d' := by
  generalize windowEq : ({ l.window with
    pixel := fun x y => if x = pos.x ∧ y = pos.y then c else l.window.pixel x y } : Window) = window
  have writes : l.window.write pos c = some window := by
    rw [Window.write, if_pos inside, windowEq]
  have isFound := List.mem_of_find?_eq_some found
  have same : SameKeys d.manager (d.manager.set { l with window }) :=
    sameKeys_set inv.addresses isFound rfl
  have inv' : Inv background mouse { d with manager := d.manager.set { l with window } } :=
    inv.sameKeys same rfl rfl
  have colour : window.transparentColor = l.window.transparentColor := by rw [← windowEq]
  have area : ({ l with window } : Layer).area = l.area := by
    rw [Layer.area, Layer.area, ← windowEq]
  have looks' : Looks background mouse (d.manager.set { l with window }) := by
    refine looks.set ?_ ?_
    · intro notMouse
      exact colour.trans (looks.solid l isFound notMouse)
    · intro atBottom
      rw [area]
      exact looks.covers l isFound atBottom
  refine ⟨_, ?_, inv', looks', ?_, rfl, ?_⟩
  · rw [act, found]
    change (l.window.write pos c).bind _ = _
    rw [writes]
    rfl
  · intro key member _
    exact same.keys.symm ▸ member
  · rintro p on (⟨area', none, -⟩ | ⟨notWritten, before⟩)
    · cases none
    · refine showsAt_congr (m := d.manager) (picture_set ?_) rfl rfl before
      intro o member here
      rw [eq_of_shown (inv.layerAt_of_findLayer found) member here]
      rw [written, found, Option.map_some, ne_eq, Option.some.injEq] at notWritten
      have elsewhere : ¬ (p.1 - l.pos.x = pos.x ∧ p.2 - l.pos.y = pos.y) := by
        rintro ⟨column, row⟩
        apply notWritten
        rw [Vector2D.add_x, Vector2D.add_y, ← column, ← row]
        exact Prod.ext (by ring) (by ring)
      have pixel : window.pixel (p.1 - l.pos.x) (p.2 - l.pos.y) =
          l.window.pixel (p.1 - l.pos.x) (p.2 - l.pos.y) := by
        rw [← windowEq]
        exact if_neg elsewhere
      simp only [Layer.ink, area, colour, pixel]

end

/-- Every event does what it has to do. -/
theorem exists_does (valid : s.Valid background mouse bottomId) {event : Event}
    (allowed : s.Admits bottomId event) : ∃ d', Does background mouse s.desktop event d' := by
  have inv := valid.inv
  have looks := valid.looks
  obtain ⟨draggable, bottom⟩ := valid.bottom
  cases event with
  | newLayer window pos => exact does_newLayer inv looks allowed.1 allowed.2 pos
  | activate id => exact does_activate inv looks allowed
  | closeLayer id => exact does_closeLayer inv looks allowed
  | move id newPos =>
      obtain ⟨l, found⟩ := exists_layer inv allowed.2
      refine does_reposition inv looks allowed.2 found
        (ne_background inv bottom found allowed.1) newPos ?_ ?_
      · rw [act, LayerManager.move, found]
        rfl
      · rw [repainted, found]
  | moveRelative id posDiff =>
      obtain ⟨l, found⟩ := exists_layer inv allowed.2
      refine does_reposition inv looks allowed.2 found
        (ne_background inv bottom found allowed.1) (l.pos + posDiff) ?_ ?_
      · rw [act, LayerManager.moveRelative, found]
        rfl
      · rw [repainted, found]
  | draw area => exact does_draw inv looks area
  | drawLayer id area => exact does_drawLayer inv looks allowed area
  | write id pos c =>
      obtain ⟨l, found, inside⟩ := allowed
      exact does_write inv looks c found inside

/-! ## Runs -/

/-- The windows of the kernel: only the cursor may have a transparent colour, and the background
is as large as the screen. -/
structure KernelLooks (k : Desktop.KernelWindows) : Prop where
  background : k.bgwindow.transparentColor = none
  console : k.consoleWindow.transparentColor = none
  main : k.mainWindow.transparentColor = none
  text : k.textWindow.transparentColor = none
  size : k.bgwindow.size = k.screen.size

/-- The desktop before it has been drawn for the first time, whatever is in the back buffer. -/
def start (k : Desktop.KernelWindows) (buffer : Int → Int → PixelColor) : Canvas where
  desktop := { Desktop.initial k with
    manager := { (Desktop.initial k).manager with backBuffer := ⟨k.screen.size, buffer⟩ } }
  stale := fun _ => true

theorem valid_start {k : Desktop.KernelWindows} (looks : KernelLooks k)
    (buffer : Int → Int → PixelColor) : (start k buffer).Valid 0 4 1 where
  inv := (Desktop.inv_initial k).sameKeys ⟨rfl, rfl, rfl, rfl⟩ rfl rfl
  looks := by
    refine ⟨rfl, ?_, ?_⟩
    · change ∀ l ∈ [_, _, _, _, _], _
      simp only [List.forall_mem_cons]
      exact ⟨fun _ => looks.background, fun _ => looks.console, fun _ => looks.main,
        fun _ => looks.text, fun other => absurd rfl other, by simp⟩
    · change ∀ l ∈ [_, _, _, _, _], _
      simp only [List.forall_mem_cons]
      refine ⟨?_, nofun, nofun, nofun, nofun, by simp⟩
      intro _ p on
      change (⟨⟨0, 0⟩, k.bgwindow.size⟩ : Rectangle).Contains p.1 p.2
      rw [looks.size]
      exact on
  bottom := ⟨false, List.mem_cons_self⟩
  shows := by
    rintro p - fresh
    cases fresh

theorem valid_of_run {k : Desktop.KernelWindows} (looks : KernelLooks k)
    {buffer : Int → Int → PixelColor} {events : List Event}
    (run : Run (guarded (ofFunction step) (Admits 1)) (start k buffer) events s) :
    s.Valid 0 4 1 := by
  refine run.invariant ?_ (valid_start looks buffer)
  rintro s event s' valid ⟨allowed, stepped⟩
  obtain ⟨d', does⟩ := exists_does valid allowed
  obtain ⟨s'', stepped', valid'⟩ := valid.step does
  rw [ofFunction_iff, stepped'] at stepped
  cases stepped
  exact valid'

/-- The whole screen. -/
def wholeScreen (m : LayerManager) : Rectangle :=
  ⟨⟨0, 0⟩, m.screen.size⟩

/-- After any run, a pixel that is not stale shows the topmost layer that is not transparent there,
as it would if everything were drawn again; and no event fails. -/
theorem drawn_of_run {k : Desktop.KernelWindows} (looks : KernelLooks k)
    {buffer : Int → Int → PixelColor} {events : List Event}
    (run : Run (guarded (ofFunction step) (Admits 1)) (start k buffer) events s) :
    (∀ p, s.desktop.manager.OnScreen p → s.stale p = false →
      s.desktop.manager.picture p = some (s.desktop.manager.screen.pixel p.1 p.2) ∧
        (s.desktop.manager.draw (wholeScreen s.desktop.manager)).screen.pixel p.1 p.2 =
          s.desktop.manager.screen.pixel p.1 p.2) ∧
      ∀ event, s.Admits 1 event → ∃ s', s.step event = some s' := by
  have valid := valid_of_run looks run
  constructor
  · intro p on fresh
    have seen := (valid.shows p on fresh).1
    refine ⟨seen, ?_⟩
    have again :=
      ((valid.inv.draw_shows valid.looks (wholeScreen s.desktop.manager) on).2 on).1
    rw [draw_eq_repaint, picture_repaint, seen] at again
    exact (Option.some.inj again).symm
  · intro event allowed
    obtain ⟨d', does⟩ := exists_does valid allowed
    obtain ⟨s', stepped, -⟩ := valid.step does
    exact ⟨s', stepped⟩

/-- Windows of the kernel in one colour, on a screen of the same size as the background. -/
def smallWindows : Desktop.KernelWindows :=
  ⟨⟨⟨160, 52⟩, fun _ _ => ⟨1, 2, 3⟩⟩, Desktop.plainWindow, Desktop.plainWindow, Desktop.plainWindow,
    Desktop.plainWindow, Desktop.plainWindow⟩

theorem kernelLooks_smallWindows : KernelLooks smallWindows :=
  ⟨rfl, rfl, rfl, rfl, rfl⟩

theorem drawn_of_run_sample : ∃ s,
    Run (guarded (ofFunction step) (Admits 1)) (start smallWindows fun _ _ => ⟨0, 0, 0⟩)
        [.draw ⟨⟨0, 0⟩, ⟨160, 52⟩⟩] s ∧ s.stale (0, 0) = false ∧
      ((∀ p, s.desktop.manager.OnScreen p → s.stale p = false →
        s.desktop.manager.picture p = some (s.desktop.manager.screen.pixel p.1 p.2) ∧
          (s.desktop.manager.draw (wholeScreen s.desktop.manager)).screen.pixel p.1 p.2 =
            s.desktop.manager.screen.pixel p.1 p.2) ∧
        ∀ event, s.Admits 1 event → ∃ s', s.step event = some s') := by
  have run : Run (guarded (ofFunction step) (Admits 1))
      (start smallWindows fun _ _ => ⟨0, 0, 0⟩) [.draw ⟨⟨0, 0⟩, ⟨160, 52⟩⟩] _ :=
    .single ⟨trivial, rfl⟩
  exact ⟨_, run, rfl, drawn_of_run kernelLooks_smallWindows run⟩

/-! ## Pointing at windows -/

/-- Of solid layers, the first with ink at a pixel is the first whose window contains it. -/
theorem findSome?_ink {layers : List Layer} (solid : ∀ l ∈ layers, l.Solid) (p : Int × Int) :
    (layers.findSome? fun l => l.ink p) =
      (layers.find? fun l => decide (l.area.Contains p.1 p.2)).map fun l =>
        l.window.pixel (p.1 - l.pos.x) (p.2 - l.pos.y) := by
  induction layers with
  | nil => rfl
  | cons l rest ih =>
      have above := ih fun o member => solid o (List.mem_cons_of_mem l member)
      rw [List.findSome?_cons, List.find?_cons]
      by_cases inside : l.area.Contains p.1 p.2
      · rw [(solid l List.mem_cons_self).ink_eq inside, decide_eq_true inside]
        rfl
      · rw [Layer.ink_outside inside, decide_eq_false inside]
        exact above

/-- The window that `FindLayerByPosition` finds below the cursor is the one that is seen there:
a pixel that is not stale shows the cursor, or else this window. -/
theorem pointed_of_run {k : Desktop.KernelWindows} (looks : KernelLooks k)
    {buffer : Int → Int → PixelColor} {events : List Event}
    (run : Run (guarded (ofFunction step) (Admits 1)) (start k buffer) events s) {p : Int × Int}
    (on : s.desktop.manager.OnScreen p) :
    ∃ l cursor,
      s.desktop.manager.findLayerByPosition ⟨p.1, p.2⟩ s.desktop.mouseLayer = some l ∧
        s.desktop.manager.findLayer s.desktop.mouseLayer = some cursor ∧
        (s.stale p = false →
          s.desktop.manager.screen.pixel p.1 p.2 =
            (cursor.ink p).getD (l.window.pixel (p.1 - l.pos.x) (p.2 - l.pos.y))) := by
  have valid := valid_of_run looks run
  obtain ⟨lower, cursor, topped, atMouse, notMouse⟩ := valid.inv.topped valid.looks
  obtain ⟨found, isFound, key⟩ := valid.inv.orderly.findLayer valid.inv.cursor
  have isCursor : cursor = found := by
    have there := valid.inv.layerAt_of_findLayer isFound
    refine eq_of_shown there ?_ (atMouse.trans (congrArg Key.address key).symm)
    rw [topped.shown]
    exact List.mem_append_right _ (List.mem_singleton_self _)
  subst isCursor
  have hasId : cursor.id = s.desktop.mouseLayer := congrArg Key.id key
  have ids := nodup_shown_ids valid.inv.nodup valid.inv.ids
  rw [topped.shown, List.map_append] at ids
  -- the search goes on below the cursor
  have search : s.desktop.manager.findLayerByPosition ⟨p.1, p.2⟩ s.desktop.mouseLayer =
      lower.reverse.find? fun l => decide (l.area.Contains p.1 p.2) := by
    rw [findLayerByPosition, topped.shown, List.reverse_append, List.reverse_singleton,
      List.singleton_append, List.find?_cons_of_neg (by simp [hasId])]
    apply List.find?_congr
    intro l member
    have otherId : l.id ≠ s.desktop.mouseLayer := by
      intro same
      refine List.disjoint_of_nodup_append ids (List.mem_map_of_mem (List.mem_reverse.mp member)) ?_
      rw [same, ← hasId]
      exact List.mem_singleton_self _
    apply decide_eq_decide.mpr
    exact and_iff_right otherId
  have picture := topped.picture_eq (p := p)
  rw [visible_eq_findSome?, ← List.map_reverse, List.findSome?_map] at picture
  have solid : ∀ l ∈ lower.reverse, l.Solid := fun l member =>
    topped.solid l (List.mem_reverse.mp member)
  have seen : (lower.reverse.findSome? ((fun sheet => sheet p) ∘ Layer.ink)) = _ :=
    findSome?_ink solid p
  rw [seen] at picture
  -- the background is at every pixel
  have some : ∃ l, lower.reverse.find? (fun l => decide (l.area.Contains p.1 p.2)) = some l := by
    rw [← Option.isSome_iff_exists, List.find?_isSome]
    obtain ⟨id, bottom⟩ := valid.inv.bottom
    obtain ⟨l, there, bottomKey⟩ := valid.inv.orderly.layerAt bottom
    obtain ⟨middle, stack⟩ := valid.inv.ends
    have atBottom : l.address = 0 := congrArg Key.address bottomKey
    have member : l ∈ s.desktop.manager.shown := by
      refine List.mem_filterMap.mpr ⟨0, ?_, there⟩
      rw [stack]
      exact List.mem_cons_self
    refine ⟨l, ?_, decide_eq_true
      (valid.looks.covers l (mem_layers_of_shown member) atBottom p on)⟩
    rw [topped.shown] at member
    rcases List.mem_append.mp member with below | top
    · exact List.mem_reverse.mpr below
    · rw [List.mem_singleton.mp top, atMouse] at atBottom
      cases atBottom
  obtain ⟨l, first⟩ := some
  refine ⟨l, cursor, search.trans first, isFound, ?_⟩
  intro fresh
  have shows := (valid.shows p on fresh).1
  rw [picture, first] at shows
  cases ink : cursor.ink p with
  | none =>
      rw [ink] at shows
      exact (Option.some.inj shows).symm
  | some c =>
      rw [ink] at shows
      exact (Option.some.inj shows).symm

theorem pointed_of_run_drawn : ∃ s,
    Run (guarded (ofFunction step) (Admits 1)) (start smallWindows fun _ _ => ⟨0, 0, 0⟩)
        [.draw ⟨⟨0, 0⟩, ⟨160, 52⟩⟩] s ∧ s.stale (10, 20) = false ∧
      ∃ l cursor,
        s.desktop.manager.findLayerByPosition ⟨10, 20⟩ s.desktop.mouseLayer = some l ∧
          s.desktop.manager.findLayer s.desktop.mouseLayer = some cursor ∧
          (s.stale (10, 20) = false →
            s.desktop.manager.screen.pixel 10 20 =
              (cursor.ink (10, 20)).getD (l.window.pixel (10 - l.pos.x) (20 - l.pos.y))) := by
  have run : Run (guarded (ofFunction step) (Admits 1))
      (start smallWindows fun _ _ => ⟨0, 0, 0⟩) [.draw ⟨⟨0, 0⟩, ⟨160, 52⟩⟩] _ :=
    .single ⟨trivial, rfl⟩
  have on : (⟨⟨0, 0⟩, ⟨160, 52⟩⟩ : Rectangle).Contains 10 20 := by decide
  exact ⟨_, run, rfl, pointed_of_run kernelLooks_smallWindows run (p := (10, 20)) on⟩

end Canvas
end Mikanos.Screen
