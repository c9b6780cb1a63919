import Mikanos.Screen.MouseMessages

/-!
# Presses and releases

Every message about a button says that it has gone down or that it has gone up.  The task of the
active layer is told both, except when the left button goes down on the title bar or on the close
button: then it is told only that the button has gone up.
-/

namespace Mikanos.Screen

open Transition

/-! ## Alternation -/

/-- Presses, which are 1, and releases, which are 0, alternate, starting with a press. -/
def Alternating (events : List Int) : Prop :=
  ∀ j event, events[j]? = some event → event = if j % 2 = 0 then 1 else 0

theorem alternating_nil : Alternating [] := by
  intro j event found
  cases found

theorem Alternating.concat {events : List Int} (alternating : Alternating events) :
    Alternating (events ++ [if events.length % 2 = 0 then 1 else 0]) := by
  intro j event found
  rcases Nat.lt_trichotomy j events.length with before | last | after
  · rw [List.getElem?_append_left before] at found
    exact alternating j event found
  · rw [last, List.getElem?_concat_length] at found
    rw [last]
    exact (Option.some_inj.mp found).symm
  · rw [List.getElem?_eq_none (by simpa using after)] at found
    cases found

/-- Only one entry of a range is looked at. -/
theorem filterMap_range_ite {β : Type} (found : Option β) (i n : Nat) :
    ((List.range n).filterMap fun k => if k = i then found else none) =
      if i < n then found.toList else [] := by
  induction n with
  | zero => rfl
  | succ n ih =>
      rw [List.range_succ, List.filterMap_append, ih]
      rcases Nat.lt_trichotomy i n with before | same | after
      · have other : n ≠ i := before.ne'
        rw [if_pos before, if_pos (Nat.lt_succ_of_lt before)]
        simp [other]
      · rw [same, if_neg (lt_irrefl n), if_pos (Nat.lt_succ_self n)]
        cases found <;> simp
      · have other : n ≠ i := after.ne
        rw [if_neg after.not_gt, if_neg (by omega)]
        simp [other]

namespace Session

/-- What the messages say about one button. -/
def buttonEvents (button : Nat) (messages : List (Nat × Message)) : List Int :=
  messages.filterMap fun sent =>
    match sent.2 with
    | .mouseButton _ _ press i => if i = button then some press else none
    | _ => none

variable {s s' : Session} {r : MouseReport}

theorem buttonEvents_append (button : Nat) (first last : List (Nat × Message)) :
    buttonEvents button (first ++ last) = buttonEvents button first ++ buttonEvents button last :=
  List.filterMap_append

/-- Other messages say nothing about buttons. -/
theorem buttonEvents_others {others : List (Nat × Message)} (button : Nat)
    (noMouse : ∀ sent ∈ others, isMouseMessage sent.2 = false) : buttonEvents button others = [] := by
  rw [buttonEvents, List.filterMap_eq_nil_iff]
  intro sent member
  have other := noMouse sent member
  split
  · rename_i message
    rw [message] at other
    cases other
  · rfl

/-- What one report says about a button. -/
theorem buttonEvents_mouseMessages (button task : Nat) (relpos posdiff : Vector2D)
    (buttons previousButtons : UInt8) :
    buttonEvents button (mouseMessages task relpos posdiff buttons previousButtons) =
      if (previousButtons ^^^ buttons).toNat.testBit button then
        [if buttons.toNat.testBit button then 1 else 0]
      else [] := by
  have moves : buttonEvents button (moveMessages task relpos posdiff buttons) = [] := by
    rw [moveMessages]
    split <;> rfl
  have one : ∀ k, ((buttonMessage task relpos buttons previousButtons k).bind fun sent =>
      match sent.2 with
      | .mouseButton _ _ press i => if i = button then some press else none
      | _ => none) =
      if k = button then
        if (previousButtons ^^^ buttons).toNat.testBit button then
          some (if buttons.toNat.testBit button then 1 else 0)
        else none
      else none := by
    intro k
    rw [buttonMessage]
    by_cases same : k = button
    · rw [same]
      split <;> simp
    · split <;> simp [same]
  rw [mouseMessages, buttonEvents_append, moves, List.nil_append, buttonEvents,
    List.filterMap_filterMap, List.filterMap_congr fun k _ => one k,
    filterMap_range_ite]
  by_cases small : button < 8
  · rw [if_pos small]
    split <;> rfl
  · have bound : (previousButtons ^^^ buttons).toNat < 2 ^ button :=
      (UInt8.toNat_lt _).trans_le (Nat.pow_le_pow_right (by decide) (Nat.le_of_not_lt small))
    rw [if_neg small, Nat.testBit_lt_two_pow bound]
    rfl

/-! ## Sequences of reports -/

/-- The active layer belongs to a task. -/
def Listens (s : Session) : Prop :=
  s.desktop.activeLayer ≠ 0 ∧ (s.desktop.layerTaskMap s.desktop.activeLayer).isSome = true

/-- A layer that has been activated stays active. -/
def StaysActive (s : Session) (r : MouseReport) : Prop :=
  s.desktop.activeLayer ≠ 0 → s.activeAfter r = s.desktop.activeLayer

/-- If the layer that is active after the report belongs to a task, the left button does not go down
on its title bar or on its close button; and if it becomes active, no button has been down. -/
def Bracketed (s : Session) (r : MouseReport) : Prop :=
  s.activeAfter r ≠ 0 ∧ (s.desktop.layerTaskMap (s.activeAfter r)).isSome = true →
    ¬ (s.Presses r ∧ (s.hitRegion r = some .titleBar ∨ s.hitRegion r = some .closeButton)) ∧
      (s.desktop.activeLayer = 0 → s.mouse.previousButtons = 0)

/-- What has been said so far: for every button that it has last gone up or down, as it is now; and
nothing before there is somebody to be told. -/
structure Told (s : Session) (new : List (Nat × Message)) : Prop where
  free : s.desktop.activeLayer = 0 ∨ s.Listens → s.mouse.dragLayerId = 0
  told : s.Listens → ∀ button, Alternating (buttonEvents button new) ∧
    ((buttonEvents button new).length % 2 = 1 ↔
      s.mouse.previousButtons.toNat.testBit button = true)
  silent : ¬ s.Listens → ∀ button, buttonEvents button new = []

/-- A button that has changed has been told of, and one that has not has not. -/
theorem alternating_append {events : List Int} {before after : Bool}
    (alternating : Alternating events) (last : events.length % 2 = 1 ↔ before = true) :
    let events' := events ++ if before ^^ after then [if after then 1 else 0] else []
    Alternating events' ∧ (events'.length % 2 = 1 ↔ after = true) := by
  have next := alternating.concat
  cases before <;> cases after
  · rw [Bool.xor_self, if_neg Bool.false_ne_true, List.append_nil]
    exact ⟨alternating, last⟩
  · have even : events.length % 2 = 0 := by simpa using last
    rw [if_pos even] at next
    refine ⟨next, ?_⟩
    simp
    omega
  · have odd : events.length % 2 = 1 := last.mpr rfl
    rw [if_neg (by omega)] at next
    refine ⟨next, ?_⟩
    simp
    omega
  · rw [Bool.xor_self, if_neg Bool.false_ne_true, List.append_nil]
    exact ⟨alternating, last⟩

theorem listens_iff (reported : Reported s r s') : s'.Listens ↔
    s.activeAfter r ≠ 0 ∧ (s.desktop.layerTaskMap (s.activeAfter r)).isSome = true := by
  rw [Listens, reported.activeLayer, reported.layerTaskMap]

/-- One report to the task of the active layer. -/
theorem Told.next_listening {new : List (Nat × Message)} (told : Told s new)
    (stays : s.StaysActive r) (bracketed : s.Bracketed r) (reported : Reported s r s')
    (listens : s'.Listens) :
    ∃ more, s'.desktop.messages = s.desktop.messages ++ more ∧ Told s' (new ++ more) := by
  have listens' := (listens_iff reported).mp listens
  rcases bracketed listens' with ⟨inside, fresh⟩
  have before : s.desktop.activeLayer = 0 ∨ s.Listens := by
    by_cases inactive : s.desktop.activeLayer = 0
    · exact .inl inactive
    · rw [stays inactive] at listens'
      exact .inr listens'
  have free : s.dragAfter r = 0 := by
    rw [dragAfter]
    split
    · rename_i presses
      rw [if_neg fun title => inside ⟨presses, .inl title⟩]
      exact told.free before
    · split
      · rfl
      · exact told.free before
  obtain ⟨task, owned⟩ := Option.isSome_iff_exists.mp listens'.2
  have receiver : s.receiver r = some task := by
    rw [Session.receiver, if_pos ⟨free, fun closes => inside ⟨closes.1, .inr closes.2⟩, listens'.1⟩]
    exact owned
  have messages := reported.messages
  rw [receiver] at messages
  rcases messages with ⟨layer, others, -, noMouse, messages⟩
  rw [List.append_assoc] at messages
  have balanced : ∀ button, Alternating (buttonEvents button new) ∧
      ((buttonEvents button new).length % 2 = 1 ↔
        s.mouse.previousButtons.toNat.testBit button = true) := by
    by_cases earlier : s.Listens
    · exact told.told earlier
    · intro button
      rw [told.silent earlier, fresh (before.resolve_right earlier)]
      exact ⟨alternating_nil, by simp⟩
  refine ⟨_, messages, fun _ => ?_, fun _ button => ?_, fun silent => absurd listens silent⟩
  · rw [reported.mouse]
    exact free
  · rw [buttonEvents_append, buttonEvents_append, buttonEvents_others button noMouse,
      List.nil_append, buttonEvents_mouseMessages, reported.mouse, UInt8.toNat_xor,
      Nat.testBit_xor]
    exact alternating_append (balanced button).1 (balanced button).2

/-- One report that nobody is told of. -/
theorem Told.next_silent {new : List (Nat × Message)} (told : Told s new)
    (stays : s.StaysActive r) (reported : Reported s r s') (silent : ¬ s'.Listens) :
    ∃ more, s'.desktop.messages = s.desktop.messages ++ more ∧ Told s' (new ++ more) := by
  have silent' := (listens_iff reported).not.mp silent
  have earlier : ¬ s.Listens := by
    intro listens
    rw [Listens, ← stays listens.1] at listens
    exact silent' listens
  have receiver : s.receiver r = none := by
    rw [Session.receiver]
    split
    · rename_i all
      exact Option.not_isSome_iff_eq_none.mp fun owned => silent' ⟨all.2.2, owned⟩
    · rfl
  have messages := reported.messages
  rw [receiver] at messages
  rcases messages with ⟨others, messages, noMouse⟩
  refine ⟨others, messages, fun inactive => ?_, fun listens => absurd listens silent,
    fun _ button => ?_⟩
  · have inactive' : s.activeAfter r = 0 := by
      rw [← reported.activeLayer]
      exact inactive.resolve_right silent
    have unselected : s.desktop.activeLayer = 0 := by
      by_contra active
      exact active ((stays active).symm.trans inactive')
    have free := told.free (.inl unselected)
    rw [reported.mouse]
    change s.dragAfter r = 0
    rw [dragAfter]
    split
    · rename_i presses
      rw [activeAfter, if_pos presses] at inactive'
      rw [inactive', free, ite_self]
    · rw [free, ite_self]
  · rw [buttonEvents_append, told.silent earlier, buttonEvents_others button noMouse]
    rfl

/-- In every sequence of such reports the task of the active layer is told in turn that a button
has gone down and that it has gone up. -/
theorem alternating_of_run (inv : s.Inv) (released : s.mouse.previousButtons = 0)
    (free : s.mouse.dragLayerId = 0) {reports : List MouseReport}
    (run : Run (guarded (ofFunction reportStep) fun s r => s.StaysActive r ∧ s.Bracketed r)
      s reports s') :
    ∃ new, s'.desktop.messages = s.desktop.messages ++ new ∧
      ∀ button, Alternating (buttonEvents button new) := by
  let Kept : Session → Prop := fun s' => s'.Inv ∧
    ∃ new, s'.desktop.messages = s.desktop.messages ++ new ∧ Told s' new
  have preserved : ∀ ⦃s₁ r s₂⦄, Kept s₁ →
      guarded (ofFunction reportStep) (fun s r => s.StaysActive r ∧ s.Bracketed r) s₁ r s₂ →
        Kept s₂ := by
    rintro s₁ r s₂ ⟨inv₁, new, messages, told⟩ ⟨⟨stays, bracketed⟩, result⟩
    rcases onInterrupt_reported inv₁ r with ⟨_, result', inv₂, reported⟩
    cases result.symm.trans result'
    have next : ∃ more, s₂.desktop.messages = s₁.desktop.messages ++ more ∧
        Told s₂ (new ++ more) := by
      by_cases listens : s₂.Listens
      · exact told.next_listening stays bracketed reported listens
      · exact told.next_silent stays reported listens
    rcases next with ⟨more, messages', told'⟩
    exact ⟨inv₂, new ++ more, by rw [messages', messages, List.append_assoc], told'⟩
  have start : Kept s := by
    refine ⟨inv, [], (List.append_nil _).symm, fun _ => free, fun _ button => ?_, fun _ _ => rfl⟩
    rw [released]
    exact ⟨alternating_nil, by simp [buttonEvents]⟩
  have kept := run.invariant preserved start
  rcases kept with ⟨-, new, messages, told⟩
  refine ⟨new, messages, fun button => ?_⟩
  by_cases listens : s'.Listens
  · exact (told.told listens button).1
  · rw [told.silent listens]
    exact alternating_nil

instance : Decidable (s.StaysActive r) :=
  inferInstanceAs (Decidable (_ → _))

instance : Decidable (s.Bracketed r) :=
  inferInstanceAs (Decidable (_ → _))

/-- The left button goes down in the window and up again. -/
def clickInside : List MouseReport :=
  [⟨1, -20, -70⟩, ⟨0, 0, 0⟩]

theorem alternating_of_run_click : ∃ s',
    Run (guarded (ofFunction reportStep) fun s r => s.StaysActive r ∧ s.Bracketed r)
        appSession clickInside s' ∧
      ∃ new, s'.desktop.messages = appSession.desktop.messages ++ new ∧
        ∀ button, Alternating (buttonEvents button new) := by
  rcases exists_run_of_execute (fun s r => s.StaysActive r ∧ s.Bracketed r) reportStep appSession
    clickInside (fun _ => true) (by decide) with ⟨s', run, -⟩
  exact ⟨s', run, alternating_of_run inv_appSession rfl rfl run⟩

/-- The left button goes down on the title bar and up again. -/
def clickTitleBar : List MouseReport :=
  [⟨1, -90, -90⟩, ⟨0, 0, 0⟩]

/-- The task is told only that the button has gone up. -/
theorem not_alternating_titleBar : ∃ s', appSession.Inv ∧
    appSession.mouse.previousButtons = 0 ∧ appSession.mouse.dragLayerId = 0 ∧
    Run (guarded (ofFunction reportStep) StaysActive) appSession clickTitleBar s' ∧
    buttonEvents 0 s'.desktop.messages = [0] ∧
    ¬ ∃ new, s'.desktop.messages = appSession.desktop.messages ++ new ∧
      ∀ button, Alternating (buttonEvents button new) := by
  rcases exists_run_of_execute StaysActive reportStep appSession clickTitleBar
    (fun s' => buttonEvents 0 s'.desktop.messages = [0]) (by decide) with ⟨s', run, told⟩
  have events := of_decide_eq_true told
  refine ⟨s', inv_appSession, rfl, rfl, run, events, ?_⟩
  rintro ⟨new, messages, alternating⟩
  rw [messages] at events
  have first := alternating 0 0 0 (by rw [← List.nil_append new]; exact congrArg (·[0]?) events)
  exact absurd first (by decide)

end Session
end Mikanos.Screen
