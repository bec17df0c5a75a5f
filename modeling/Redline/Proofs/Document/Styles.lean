import Redline.Proofs.Editing

/-!
# The styles that a document defines

No effect changes the stylesheet, whether it succeeds or not.  So a style that the document defines
when a plan begins is defined when an effect of the plan asks for it.
-/

namespace Redline

namespace Document

variable {d d' : Document} {h : Handle}

@[simp] theorem styles_mapTrees (change : Forest → Forest) :
    (d.mapTrees change).styles = d.styles := rfl

@[simp] theorem styles_modify (change : Element → Forest → Element × Forest) :
    (d.modify h change).styles = d.styles := rfl

@[simp] theorem styles_modifyInside (change : Forest → Forest) :
    (d.modifyInside h change).styles = d.styles := rfl

@[simp] theorem styles_dropLoose : (d.dropLoose h).styles = d.styles := rfl

@[simp] theorem styles_place (before after : Forest) :
    (d.place h before after).styles = d.styles := rfl

@[simp] theorem styles_takeOut : (d.takeOut h).styles = d.styles := by
  unfold takeOut
  cases d.tree? h <;> rfl

@[simp] theorem styles_removeParagraph : (d.removeParagraph h).styles = d.styles := by
  unfold removeParagraph
  repeat' split
  all_goals simp

/-- What every step of a row leaves alone, the row leaves alone. -/
theorem styles_foldl {step : Document → Handle → Document}
    (hs : ∀ d h, (step d h).styles = d.styles) (handles : List Handle) :
    (handles.foldl step d).styles = d.styles := by
  induction handles generalizing d with
  | nil => rfl
  | cons h rest ih => exact ih.trans (hs d h)

end Document

namespace Effect

open Document

variable {d : Document}

theorem styles_withValue {α : Type} (value : Except Fault α) {next : α → Outcome}
    (hn : ∀ a, (next a).1.styles = d.styles) : (withValue d value next).1.styles = d.styles := by
  cases value with
  | ok a => exact hn a
  | error fault => rfl

theorem styles_applyInsertBeside (new anchor : Handle) (side : Side) :
    (applyInsertBeside new side anchor d).1.styles = d.styles := by
  unfold applyInsertBeside
  cases d.standing anchor with
  | fresh => rfl
  | removed => rfl
  | placed => cases side <;> rfl

theorem styles_applyClearRange (keep : Handle) (others : List Handle) :
    (applyClearRange keep others d).1.styles = d.styles := by
  unfold applyClearRange
  dsimp only
  split
  · rfl
  · refine (styles_foldl (fun d h => styles_removeParagraph) others).trans ?_
    rw [styles_modifyInside]
    have hbare := @styles_foldl d (fun d h => d.modifyInside h (·.withoutMarks))
      (fun _ _ => styles_modifyInside _) (lastPlaces (keep :: others))
    split
    · exact hbare
    · exact hbare

theorem styles_applyWrap (control first : Handle) (others : List Handle) :
    (applyWrap control first others d).1.styles = d.styles := by
  unfold applyWrap
  dsimp only
  split
  · have herased := @styles_foldl ((d.dropLoose control).place first (newTree d control) .nil)
      (fun d h => d.mapTrees (·.erase h)) (fun _ _ => styles_mapTrees _) (first :: others)
    exact herased
  · rfl

theorem styles_applySetProperty (control : Handle) (text : String)
    (change : ControlProperties → ControlProperties) :
    (applySetProperty control text change d).1.styles = d.styles := by
  unfold applySetProperty
  repeat' split
  all_goals rfl

/-- Every effect leaves the stylesheet alone. -/
@[simp] theorem styles_apply (e : Effect) (d : Document) : (e.apply d).1.styles = d.styles := by
  cases e with
  | insertBeside new text side anchor => exact styles_applyInsertBeside new anchor side
  | insertInBody new text edge => cases edge <;> rfl
  | setText paragraph text => rfl
  | setStyle paragraph style => exact styles_withValue _ fun _ => rfl
  | setColor paragraph color => exact styles_withValue _ fun _ => rfl
  | setBold paragraph bold => rfl
  | setAlignment paragraph alignment =>
    simp only [apply, applySetAlignment]
    split <;> rfl
  | replace found text =>
    simp only [apply, applyReplace]
    split <;> rfl
  | clearRange keep others => exact styles_applyClearRange keep others
  | clearBody => rfl
  | delete paragraph =>
    simp only [apply, applyDelete]
    split
    · rfl
    · exact styles_removeParagraph
  | wrap control first others tag => exact styles_applyWrap control first others
  | setTag control tag => exact styles_applySetProperty control tag _
  | setAppearance control appearance => exact styles_applySetProperty control appearance _

/-- A style that cannot be given changes nothing. -/
theorem apply_setStyle_of_error {name : String} {cause : Fault}
    (hname : d.styles.resolve name = .error cause) (h : Handle) :
    (setStyle h name).apply d = (d, some cause) := by
  rw [apply, applySetStyle, hname]
  rfl

end Effect

/-- A closed host leaves it alone as well. -/
@[simp] theorem Host.styles_step (isOpen : Bool) (e : Effect) (d : Document) :
    (Host.step isOpen e d).1.styles = d.styles := by
  unfold Host.step
  repeat' split
  all_goals simp

namespace Document

variable {d d' : Document} {effects : List Effect}

theorem styles_applyAll (isOpen : Bool) :
    (d.applyAll (Host.step isOpen) effects).document.styles = d.styles := by
  induction effects generalizing d with
  | nil => rfl
  | cons e rest ih =>
    have hstep := Host.styles_step isOpen e d
    rcases hrun : Host.step isOpen e d with ⟨next, _ | fault⟩
    · rw [hrun] at hstep
      rw [applyAll_cons_of_done hrun]
      exact ih.trans hstep
    · rw [hrun] at hstep
      rw [applyAll_cons_of_fault hrun]
      exact hstep

theorem Becomes.styles (h : d.Becomes effects d') : d'.styles = d.styles := by
  have hall := @styles_applyAll d effects true
  rw [show Host.step true = Effect.apply from rfl, becomes_iff.1 h] at hall
  exact hall

end Document

end Redline
