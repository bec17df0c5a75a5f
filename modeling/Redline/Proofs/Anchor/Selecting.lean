import Redline.Proofs.Anchor.Latest
import Redline.Proofs.Anchor.Marking

/-!
# The number of a marked selection

A selection is marked with one number more than the highest there is, so that it is the one that is
found as the last, and over a row of marks the numbers rise.  What is marked has to stand directly
in the body; anything else is refused before a paragraph has moved.  All of this holds as long as
the numbers are short enough to be read and written.

## Main definitions

* `Anchor.Countable` — the numbers there are can be read, and the next one can be written.
* `Anchor.Marked` — what marking a selection has made of a host.
* `Anchor.markEach` — marks selections one after the other.

## Main results

* `Anchor.markSelection_is_latest` — what marking a selection does.
-/

namespace Redline

open Editing Forest Numeral Redline.Text

variable {host after : Host} {d : Document} {f : Forest} {rules : Rules} {appearance tag : String}
  {first control : Handle} {others range : List Handle} {ps : List Paragraph}

/-! ## The body with the control -/

/-- Wrapping puts the control in at one place; the other controls stay in front of it and behind
it. -/
theorem Forest.exists_split_wrapping (hn : f.listed.Nodup) (hfirst : first ∈ f.ownParagraphs)
    (hmem : first ∈ range) :
    ∃ before behind : Forest, f.markers = before.markers ++ behind.markers ∧
      ∀ wrapped, f.rewrite (wrapping first range wrapped) = before ++ (wrapped ++ behind) := by
  obtain ⟨front, p, rest, rfl, rfl⟩ := exists_tree_of_own hfirst
  rw [listed_append, listed_append, listed_tree, List.singleton_append] at hn
  obtain ⟨-, hright, hdisjoint⟩ := List.nodup_append.1 hn
  have hfront : ∀ q ∈ front.paragraphs, q.handle ≠ p.handle := fun q hq he =>
    hdisjoint _ (List.mem_map_of_mem hq) _ List.mem_cons_self he
  have hrest : ∀ q ∈ rest.paragraphs, q.handle ≠ p.handle := fun q hq he =>
    (List.nodup_cons.1 hright).1 (he ▸ List.mem_map_of_mem hq)
  have hnone : ∀ q : Paragraph, (wrapping p.handle range .nil q).controls = [] := by
    intro q
    rw [wrapping, controls_append]
    split <;> split <;> rfl
  refine ⟨front.rewrite (wrapping p.handle range .nil), rest.rewrite (wrapping p.handle range .nil),
    ?_, fun wrapped => ?_⟩
  · rw [markers_append, markers_append, markers_rewrite fun q _ => hnone q,
      markers_rewrite fun q _ => hnone q]
    rfl
  · have hsame : ∀ q : Paragraph, q.handle ≠ p.handle →
        wrapping p.handle range wrapped q = wrapping p.handle range .nil q := fun q hq => by
      rw [wrapping, wrapping, if_neg hq, if_neg hq]
    have hplace : wrapping p.handle range wrapped p = wrapped := by
      rw [wrapping, if_pos rfl, if_pos hmem, append_nil]
    rw [rewrite_append, rewrite_append, rewrite_tree, hplace,
      rewrite_congr fun q hq => hsame q (hfront q hq),
      rewrite_congr fun q hq => hsame q (hrest q hq)]

theorem Forest.own_join_tree (ps : List Paragraph) : (join (ps.map Paragraph.tree)).own = ps := by
  induction ps with
  | nil => rfl
  | cons p rest ih => simpa [join_cons] using ih

/-- The control of a gathered range is found behind what stands in front of it. -/
theorem Forest.tree?_gathered {properties : Option ControlProperties} {before behind : Forest}
    (hf : f = before ++ (gathered control properties ps ++ behind)) (hn : f.handles.Nodup) :
    f.tree? control = some (gathered control properties ps) := by
  rw [hf, handles_append] at hn
  have hfront : control ∉ before.handles := fun hm =>
    (List.nodup_append.1 hn).2.2 _ hm control (by simp [gathered, Element.handle?]) rfl
  have hhas : (Element.control control properties).has control = true := Element.has_iff.2 rfl
  rw [hf, tree?_append_of_notMem hfront]
  simp only [gathered, single, cons_append, tree?, hhas, if_true]

/-- A body in which a range has been marked. -/
structure Forest.MarkedAs (f : Forest) (tag : String) (control : Handle) (range : List Handle)
    (g : Forest) : Prop where
  /-- The control stands among the others. -/
  markers : ∃ before behind m, f.markers = before ++ behind ∧ g.markers = before ++ m :: behind ∧
    m.tag = tag ∧ m.handle = control
  /-- It holds the range. -/
  holds : ∃ e inside, g.tree? control = some (single e inside) ∧ inside.ownParagraphs = range

namespace Document

open Effect

/-- The document for which the control of a mark has been made. -/
def withControl (tag : String) (d : Document) : Document :=
  d.withPart (single (.control ⟨d.nextHandle⟩ (some { tag := some tag })) .nil)

/-- The effects of a mark. -/
def markEffects (d : Document) (first : Handle) (others : List Handle) (tag appearance : String) :
    List Effect :=
  [.wrap ⟨d.nextHandle⟩ first others tag, .setAppearance ⟨d.nextHandle⟩ appearance]

theorem wellFormed_withControl (hd : d.WellFormed) (tag : String) :
    (d.withControl tag).WellFormed :=
  hd.withPart rfl (by simp [ofKind_single, Element.characters])

/-- A range of paragraphs that stand directly in the body is wrapped in a control that has been made
for it. -/
theorem exists_wrapped (hd : d.WellFormed) (hps : ps ⊆ d.body.own)
    (hrange : ps.map (·.handle) = first :: others) (hn : (first :: others).Nodup) (tag : String) :
    ∃ mid, (Effect.wrap ⟨d.nextHandle⟩ first others tag).apply (d.withControl tag) = (mid, none) ∧
      mid.WellFormed ∧ ⟨d.nextHandle⟩ ∉ d.body.handles ∧
      mid.body = d.body.rewrite (wrapping first (first :: others)
        (gathered ⟨d.nextHandle⟩ (some { tag := some tag }) ps)) := by
  have hwell := wellFormed_withControl hd tag
  have hnew : ⟨true, single (.control ⟨d.nextHandle⟩ (some { tag := some tag })) .nil⟩ ∈
      (d.withControl tag).loose := List.mem_append_right _ (List.mem_singleton_self _)
  have hhas : (Element.control ⟨d.nextHandle⟩ (some { tag := some tag })).has
      ⟨d.nextHandle⟩ = true := Element.has_iff.2 rfl
  have hown : ∀ h ∈ first :: others, h ∈ (d.withControl tag).body.ownParagraphs := by
    rw [← hrange, ownParagraphs_eq]
    exact List.map_subset _ hps
  have hlast := hrange.trans (lastPlaces_of_nodup hn).symm
  exact ⟨_, apply_wrap hwell hnew hhas hown rfl rfl tag hps hlast,
    wellFormed_wrapped hwell hnew hhas hown rfl rfl hps hlast,
    notMem_body_of_loose (d := d.withControl tag) hwell hnew hhas, rfl⟩

/-- A range of paragraphs that stand directly in the body is marked. -/
theorem becomes_marked (hd : d.WellFormed) (hown : ∀ h ∈ first :: others, h ∈ d.body.ownParagraphs)
    (hn : (first :: others).Nodup) (tag : String) (ha : isWritable appearance.toList = true) :
    ∃ d', (d.withControl tag).Becomes (d.markEffects first others tag appearance) d' ∧
      d'.WellFormed ∧ d.body.MarkedAs tag ⟨d.nextHandle⟩ (first :: others) d'.body := by
  obtain ⟨ps, hps, hrange⟩ := exists_own_paragraphs hown
  obtain ⟨mid, hwrap, hmid, hcontrol, hwrapped⟩ := exists_wrapped hd hps hrange hn tag
  obtain ⟨before, behind, hmarkers, hsplit⟩ := exists_split_wrapping
    (hd.nodup_body.sublist (listed_sublist_handles _)) (hown first List.mem_cons_self)
    List.mem_cons_self
  let alter : ControlProperties → ControlProperties := fun properties =>
    { properties with appearance := some appearance }
  have hset : (mid.modify ⟨d.nextHandle⟩ (reproperty alter)).WellFormed := hmid.reproperty alter
  have hbody : (mid.modify ⟨d.nextHandle⟩ (reproperty alter)).body = before ++
      (gathered ⟨d.nextHandle⟩ (some ⟨some tag, some appearance⟩) ps ++ behind) := by
    have hnodup := hmid.nodup_body
    rw [hwrapped] at hnodup
    have hmodified := modify_wrapped hnodup hcontrol List.mem_cons_self alter
    rw [← hsplit, ← hmodified, ← hwrapped]
    rfl
  have hproperties : hasProperties mid ⟨d.nextHandle⟩ = true := by
    have htree := tree?_gathered (hwrapped.trans (hsplit _)) hmid.nodup_body
    rw [hasProperties, tree?, htree]
    rfl
  refine ⟨_, becomes_cons.2 ⟨mid, hwrap, becomes_cons.2 ⟨_, ?_, rfl⟩⟩, hset, ?_, ?_⟩
  · simp only [Effect.apply, applySetProperty, hproperties, ha, Bool.not_true, Bool.false_eq_true,
      if_false, done]
    rfl
  · refine ⟨before.markers, behind.markers, ⟨tag, some appearance, ⟨d.nextHandle⟩⟩, hmarkers, ?_,
      rfl, rfl⟩
    rw [hbody, markers_append, markers_append]
    rfl
  · refine ⟨_, _, tree?_gathered hbody hset.nodup_body, ?_⟩
    rw [ownParagraphs_eq, own_join_tree, hrange]

/-- A range with something in it that does not stand directly in the body is not wrapped. -/
theorem apply_wrap_of_not_own (h : ¬ ∀ h ∈ first :: others, h ∈ d.body.ownParagraphs) (k : Handle)
    (tag : String) : (Effect.wrap k first others tag).apply d = (d, some .notTopLevel) := by
  have hall : ¬ ((first :: others).all d.body.ownParagraphs.contains) = true := by
    simpa [List.all_eq_true] using h
  rw [Effect.apply, applyWrap, if_neg hall, fails]

end Document

/-! ## The selection -/

/-- What is selected and still stands in the body. -/
theorem Host.Answers.runOn_selection (ha : host.Answers) (hs : host.selected = some range) :
    Host.selection.runOn host =
      (.ok (if (range.filter host.document.attached).isEmpty then none
        else some (range.filter host.document.attached)), host) := by
  cases range with
  | nil => simp [Host.selection, runOn_bind, ha.check, hs]
  | cons first others =>
    rw [Host.selection, runOn_bind, ha.check]
    dsimp only
    rw [runOn_bind, runOn_get]
    simp only [hs, runOn_bind, ha.openDocument]
    rfl

theorem Host.Answers.selection (ha : host.Answers) (hs : host.selected = some range)
    (hne : range ≠ []) (hattached : ∀ h ∈ range, h ∈ host.document.body.handles) :
    Host.selection.runOn host = (.ok (some range), host) := by
  have hlive : range.filter host.document.attached = range :=
    List.filter_eq_self.2 fun h hh => holds_iff.2 (hattached h hh)
  rw [ha.runOn_selection hs, hlive, if_neg (by simpa using hne)]

/-- What the host refuses is handed back. -/
theorem Editing.catchRefusal_of_refusal {α : Type} {work : Editing α} {fault : Fault}
    (h : work.runOn host = (.error (.fault fault), after)) (hf : fault.family = .host) :
    (catchRefusal work).runOn host = (.ok (.error fault), after) := by
  rw [catchRefusal, runOn_tryCatch, runOn_bind, h]
  simp [hf]

namespace Anchor

variable {start : String} {markers : List Marker} {n : Nat}

/-! ## The next number -/

/-- The numbers there are can be read, and the one after the highest can be written. -/
structure Countable (start : String) (markers : List Marker) : Prop where
  legible : Legible start markers
  below : ∀ m ∈ markers, ∀ n, Numbers start m.tag n → n + 1 < bound

theorem largest_eq (least : Int) (l : List Int) :
    Document.largest least l = l.max?.getD least := by
  cases l <;> rfl

/-- The next number is above all that there are, and by one above the highest. -/
theorem exists_next (start : String) (markers : List Marker) :
    ∃ n : Nat, Document.largest 0 ((entries start markers).map (·.1)) + 1 = (n : Int) ∧
      (∀ m ∈ markers, ∀ k, Numbers start m.tag k → k < n) ∧
      (n = 1 ∨ ∃ m ∈ markers, ∃ k, Numbers start m.tag k ∧ n = k + 1) := by
  rw [largest_eq]
  cases hmax : ((entries start markers).map (·.1)).max? with
  | none =>
    have hnone : entries start markers = [] := by simpa using List.max?_eq_none_iff.1 hmax
    refine ⟨1, rfl, fun m hm k hk => ?_, .inl rfl⟩
    have hmem := mem_entries.2 ⟨m, hm, k, hk, rfl⟩
    rw [hnone] at hmem
    cases hmem
  | some N =>
    obtain ⟨hN, hle⟩ := List.max?_eq_some_iff.1 hmax
    obtain ⟨x, hx, rfl⟩ := List.mem_map.1 hN
    obtain ⟨m, hm, k, hk, rfl⟩ := mem_entries.1 hx
    refine ⟨k + 1, rfl, fun e he j hj => ?_, .inr ⟨m, hm, k, hk, rfl⟩⟩
    have hj := hle (j : Int) (List.mem_map_of_mem (mem_entries.2 ⟨e, he, j, hj, rfl⟩))
    dsimp only at hj
    omega

/-- A next number can be written if the numbers there are allow for it. -/
theorem Countable.exists_next {markers : List Marker} (hc : Countable start markers) :
    ∃ n : Nat, Document.largest 0 ((entries start markers).map (·.1)) + 1 = (n : Int) ∧
      (∀ m ∈ markers, ∀ k, Numbers start m.tag k → k < n) ∧ 0 < n ∧ n < bound := by
  obtain ⟨n, hlargest, habove, hn⟩ := Anchor.exists_next start markers
  refine ⟨n, hlargest, habove, ?_⟩
  rcases hn with rfl | ⟨m, hm, k, hk, rfl⟩
  · exact ⟨by omega, Nat.one_lt_pow (by decide) (by decide)⟩
  · exact ⟨by omega, hc.below m hm k hk⟩

theorem isWritable_tag (h : isWritable start.toList = true) (n : Nat) :
    isWritable (start ++ toString n).toList = true := by
  have hdigits : ∀ c ∈ Nat.toDigits 10 n, isForbidden c = false := by
    intro c hc
    have hdigit := Nat.isDigit_of_mem_toDigits (by decide) (by decide) hc
    simp only [Char.isDigit, Bool.and_eq_true, decide_eq_true_eq, ge_iff_le, UInt32.le_iff_toNat_le]
      at hdigit
    have hlow : 48 ≤ c.toNat := hdigit.1
    have hhigh : c.toNat ≤ 57 := hdigit.2
    simp only [isForbidden, Bool.or_eq_false_iff, Bool.and_eq_false_iff, decide_eq_false_iff_not,
      beq_eq_false_iff_ne]
    omega
  rw [String.toList_append, isWritable, List.all_append, Bool.and_eq_true]
  refine ⟨h, List.all_eq_true.2 fun c hc => ?_⟩
  rw [Nat.toString_eq_repr, Nat.toList_repr] at hc
  rw [hdigits c hc]
  rfl

theorem numbers_tag (start : String) (n : Nat) : Numbers start (start ++ toString n) n :=
  ⟨_, ⟨String.toList_append, isRow_toString n⟩, rowValue_toString n⟩

theorem tagRow_append (start : String) {row : List Char} (h : IsRow row) :
    TagRow start (start ++ String.ofList row) row :=
  ⟨by rw [String.toList_append, String.toList_ofList], h⟩

/-! ## The run -/

/-- What marking a selection has made of a host. -/
structure Marked (rules : Rules) (host after : Host) (range : List Handle) (n : Nat) : Prop where
  ready : after.Ready
  legible : Legible rules.selectionPrefix host.document.body.markers
  above : ∀ m ∈ host.document.body.markers, ∀ k, Numbers rules.selectionPrefix m.tag k → k < n
  positive : 0 < n
  short : n < bound
  body : ∃ control, host.document.body.MarkedAs (rules.selectionPrefix ++ toString n) control range
    after.document.body

section
variable (hh : host.Ready) (hs : Host.selection.runOn host = (.ok (some range), host))
include hh hs

theorem markSelection_of_numbered_error {f : Fault}
    (hf : numbered rules.selectionPrefix host.document.body.markers = .error f) :
    (markSelection rules appearance).runOn host = (.error (.fault f), host) := by
  have hopen := runOn_ensureHost hh.isOpen
  simp only [markSelection, runOn_bind, hopen, hs, hh.markers, hf]
  rfl

/-- A number that cannot be read or written stops the marking at its start. -/
theorem markSelection_of_not_countable (appearance : String)
    (hc : ¬ Countable rules.selectionPrefix host.document.body.markers) :
    ∃ f : Fault, f.family = .value ∧
      (markSelection rules appearance).runOn host = (.error (.fault f), host) := by
  have hopen := runOn_ensureHost hh.isOpen
  by_cases hl : Legible rules.selectionPrefix host.document.body.markers
  · obtain ⟨n, hlargest, habove, -⟩ := exists_next rules.selectionPrefix host.document.body.markers
    have hlong : ¬ n < bound := by
      intro hn
      refine hc ⟨hl, fun m hm k hk => ?_⟩
      have := habove m hm k hk
      omega
    have hwrite : write (n : Int) = .error .unwrittenInteger := write_of_le (Nat.le_of_not_lt hlong)
    refine ⟨.unwrittenInteger, rfl, ?_⟩
    simp only [markSelection, runOn_bind, hopen, hs, hh.markers, numbered_eq hl, runOn_lift_ok,
      hlargest, hwrite]
    rfl
  · obtain ⟨digits, -, hnumbered⟩ := numbered_of_not_legible hl
    exact ⟨.longInteger digits, rfl, markSelection_of_numbered_error hh hs hnumbered⟩

/-- With a number at hand, the control is made, and two effects are queued and flushed. -/
theorem markSelection_of_countable (appearance : String) {n : Nat}
    (hrange : range = first :: others)
    (hl : Legible rules.selectionPrefix host.document.body.markers)
    (hlargest : Document.largest 0
      ((entries rules.selectionPrefix host.document.body.markers).map (·.1)) + 1 = (n : Int))
    (hn : n < bound) (hw : isWritable rules.selectionPrefix.toList = true) :
    (markSelection rules appearance).runOn host =
      (do
        match ← catchRefusal Host.flush with
        | .ok _ => pure (rules.selectionPrefix ++ toString n)
        | .error fault => Editing.failure (.markingFailed fault) : Editing String).runOn
        (host.queueing (host.document.withControl (rules.selectionPrefix ++ toString n))
          (host.document.markEffects first others (rules.selectionPrefix ++ toString n)
            appearance)) := by
  have hopen := runOn_ensureHost hh.isOpen
  have htag := isWritable_tag hw n
  have hwrite : write (n : Int) = .ok (toString n) := write_of_lt hn
  have hwrap : (Host.wrap range (rules.selectionPrefix ++ toString n)).runOn host =
      (.ok ⟨host.document.nextHandle⟩,
        host.queueing (host.document.withControl (rules.selectionPrefix ++ toString n))
          [.wrap ⟨host.document.nextHandle⟩ first others
            (rules.selectionPrefix ++ toString n)]) := by
    simp only [hrange, Host.wrap, htag, Bool.not_true, Bool.false_eq_true, if_false]
    rfl
  rw [markSelection, runOn_bind, hopen]
  dsimp only
  rw [runOn_bind, hs]
  dsimp only
  rw [runOn_bind, hh.markers]
  dsimp only
  rw [numbered_eq hl, runOn_bind, runOn_lift_ok]
  dsimp only
  rw [hlargest, hwrite, runOn_bind, runOn_lift_ok]
  dsimp only
  rw [runOn_bind, hwrap]
  dsimp only
  rw [runOn_bind, Host.runOn_queue_queueing]
  rfl

/-- Paragraphs that stand directly in the body are marked. -/
theorem markSelection_of_own (hne : range ≠ []) (hn : range.Nodup)
    (hc : Countable rules.selectionPrefix host.document.body.markers)
    (hw : isWritable rules.selectionPrefix.toList = true) (ha : isWritable appearance.toList = true)
    (hown : ∀ h ∈ range, h ∈ host.document.body.ownParagraphs) :
    ∃ n after, (markSelection rules appearance).runOn host =
        (.ok (rules.selectionPrefix ++ toString n), after) ∧ Marked rules host after range n := by
  obtain ⟨first, others, rfl⟩ := List.exists_cons_of_ne_nil hne
  obtain ⟨n, hlargest, habove, hpositive, hshort⟩ := hc.exists_next
  obtain ⟨d', hbecomes, hwell, hmarked⟩ := Document.becomes_marked hh.wellFormed hown hn
    (rules.selectionPrefix ++ toString n) ha
  obtain ⟨count, hflush⟩ := hh.flush_queueing.2 ⟨d', hbecomes, rfl⟩
  have hrun := markSelection_of_countable hh hs appearance rfl hc.legible hlargest hshort hw
  rw [runOn_bind, catchRefusal_of_ok hflush] at hrun
  exact ⟨n, _, hrun, hh.flushed hwell, hc.legible, habove, hpositive, hshort, _, hmarked⟩

/-- Anything else is refused, and the body stays what it is. -/
theorem markSelection_of_not_own (appearance : String) (hne : range ≠ [])
    (hc : Countable rules.selectionPrefix host.document.body.markers)
    (hw : isWritable rules.selectionPrefix.toList = true)
    (hown : ¬ ∀ h ∈ range, h ∈ host.document.body.ownParagraphs) :
    ∃ fault after, (markSelection rules appearance).runOn host =
        (.error (.failure (.markingFailed fault)), after) ∧
      after.Ready ∧ after.document.body = host.document.body := by
  obtain ⟨first, others, rfl⟩ := List.exists_cons_of_ne_nil hne
  obtain ⟨n, hlargest, -, -, hshort⟩ := hc.exists_next
  have hwell := Document.wellFormed_withControl hh.wellFormed (rules.selectionPrefix ++ toString n)
  have hrefused := Document.apply_wrap_of_not_own
    (d := host.document.withControl (rules.selectionPrefix ++ toString n)) hown
    ⟨host.document.nextHandle⟩ (rules.selectionPrefix ++ toString n)
  have hflush := hh.flush_refused hrefused
    [.setAppearance ⟨host.document.nextHandle⟩ appearance]
  have hrun := markSelection_of_countable hh hs appearance rfl hc.legible hlargest hshort hw
  rw [Document.markEffects, runOn_bind, catchRefusal_of_refusal hflush rfl] at hrun
  exact ⟨_, _, hrun, hh.flushed hwell, rfl⟩

end

/-! ## The latest selection -/

namespace Marked

variable {n : Nat} (h : Marked rules host after range n)
include h

theorem markers_subset : host.document.body.markers ⊆ after.document.body.markers := by
  obtain ⟨control, ⟨before, behind, m, hbefore, hafter, -, -⟩, -⟩ := h.body
  rw [hbefore, hafter]
  exact List.append_subset.2 ⟨List.subset_append_left _ _, fun e he =>
    List.mem_append_right _ (List.mem_cons_of_mem _ he)⟩

/-- The new number is among the numbers there are. -/
theorem exists_numbered :
    ∃ m ∈ after.document.body.markers, Numbers rules.selectionPrefix m.tag n := by
  obtain ⟨control, ⟨before, behind, m, -, hafter, htag, -⟩, -⟩ := h.body
  refine ⟨m, ?_, htag ▸ numbers_tag _ n⟩
  rw [hafter]
  exact List.mem_append_right _ List.mem_cons_self

theorem legible_after : Legible rules.selectionPrefix after.document.body.markers := by
  obtain ⟨control, ⟨before, behind, m, hbefore, hafter, htag, -⟩, -⟩ := h.body
  have hold := h.legible
  rw [hbefore] at hold
  rw [hafter]
  intro e he row hrow
  rcases List.mem_append.1 he with he | he
  · exact hold e (List.mem_append_left _ he) row hrow
  · rcases List.mem_cons.1 he with rfl | he
    · have hself : TagRow rules.selectionPrefix e.tag (toString n).toList :=
        htag ▸ ⟨String.toList_append, isRow_toString n⟩
      rw [hself.unique hrow, String.length_toList]
      exact length_toString_le_iff.2 h.short
    · exact hold e (List.mem_append_right _ he) row hrow

/-- What has been marked is found as the selection that was marked last. -/
theorem latestSelection : (latestSelection rules).runOn after = (.ok (some range), after) := by
  have hlegible := h.legible_after
  obtain ⟨control, ⟨before, behind, m, hbefore, hafter, htag, rfl⟩, e, inside, htree, hinside⟩ :=
    h.body
  have hm : number? rules.selectionPrefix m.tag = some n :=
    number?_eq_some_iff.2 (htag ▸ numbers_tag _ n)
  have hentries : entries rules.selectionPrefix after.document.body.markers =
      entries rules.selectionPrefix before ++
        ((n : Int), m) :: entries rules.selectionPrefix behind := by
    rw [hafter, entries, List.filterMap_append, List.filterMap_cons, hm]
    rfl
  have hlt : ∀ markers ⊆ host.document.body.markers,
      ∀ x ∈ entries rules.selectionPrefix markers, x.1 < (n : Int) := by
    intro markers hmarkers x hx
    obtain ⟨e, he, k, hk, rfl⟩ := mem_entries.1 hx
    exact Int.ofNat_lt.2 (h.above e (hmarkers he) k hk)
  have hfirst := hlt before (hbefore ▸ List.subset_append_left _ _)
  have hlast := hlt behind (hbefore ▸ List.subset_append_right _ _)
  have hlatest : latest? (entries rules.selectionPrefix after.document.body.markers) = some m := by
    rw [hentries]
    exact latest?_of_split (by have := h.positive; omega) hfirst fun x hx => (hlast x hx).le
  have hrange : (after.document.inside m.handle).ownParagraphs = range := by
    rw [Document.inside, Document.tree?, htree]
    exact hinside
  simp [Anchor.latestSelection, runOn_bind, h.ready.markers, numbered_eq hlegible, hlatest,
    runOn_map, h.ready.markerRange, hrange]

end Marked

/-! ## Rows of marks -/

/-- Marks selections one after the other: the tags of those that could be marked, and the host that
is left. -/
def markEach (rules : Rules) (appearance : String) : List (List Handle) → Host → List String × Host
  | [], host => ([], host)
  | range :: rest, host =>
    match (markSelection rules appearance).runOn { host with selected := some range } with
    | (.ok tag, after) =>
      let (tags, last) := markEach rules appearance rest after
      (tag :: tags, last)
    | (.error _, after) => markEach rules appearance rest after

theorem selection_cases (ha : host.Answers) (hs : host.selected = some range) (hn : range.Nodup) :
    Host.selection.runOn host = (.ok none, host) ∨
      ∃ live, live ≠ [] ∧ live.Nodup ∧ Host.selection.runOn host = (.ok (some live), host) := by
  rw [ha.runOn_selection hs]
  by_cases hempty : (range.filter host.document.attached).isEmpty = true
  · exact .inl (by rw [if_pos hempty])
  · exact .inr ⟨_, by simpa using hempty, hn.filter _, by rw [if_neg hempty]⟩

section
variable (hw : isWritable rules.selectionPrefix.toList = true)
  (ha : isWritable appearance.toList = true)
include hw ha

/-- One mark of a row: it is made, or the body stays what it is. -/
theorem markSelection_cases (hh : host.Ready) (hs : host.selected = some range)
    (hn : range.Nodup) :
    (∃ live n after, (markSelection rules appearance).runOn host =
        (.ok (rules.selectionPrefix ++ toString n), after) ∧ Marked rules host after live n) ∨
      ∃ mishap after, (markSelection rules appearance).runOn host = (.error mishap, after) ∧
        after.Ready ∧ after.document.body = host.document.body := by
  rcases selection_cases hh.toAnswers hs hn with hnone | ⟨live, hne, hlive, hsome⟩
  · refine .inr ⟨.failure .nothingSelected, host, ?_, hh, rfl⟩
    simp [markSelection, runOn_ensureHost hh.isOpen, runOn_bind, hnone]
  · by_cases hc : Countable rules.selectionPrefix host.document.body.markers
    · by_cases hown : ∀ h ∈ live, h ∈ host.document.body.ownParagraphs
      · obtain ⟨n, after, hrun, hmarked⟩ := markSelection_of_own hh hsome hne hlive hc hw ha hown
        exact .inl ⟨live, n, after, hrun, hmarked⟩
      · obtain ⟨fault, after, hrun, hready, hbody⟩ :=
          markSelection_of_not_own hh hsome appearance hne hc hw hown
        exact .inr ⟨_, after, hrun, hready, hbody⟩
    · obtain ⟨f, -, hrun⟩ := markSelection_of_not_countable hh hsome appearance hc
      exact .inr ⟨_, host, hrun, hh, rfl⟩

/-- Over a row of marks the numbers rise, and they are above all that there were. -/
theorem markEach_numbers (hh : host.Ready) {ranges : List (List Handle)}
    (hn : ∀ range ∈ ranges, range.Nodup) :
    ∃ ns : List Nat, (markEach rules appearance ranges host).1 =
        ns.map (fun n => rules.selectionPrefix ++ toString n) ∧ ns.Pairwise (· < ·) ∧
      ∀ n ∈ ns, ∀ m ∈ host.document.body.markers, ∀ k,
        Numbers rules.selectionPrefix m.tag k → k < n := by
  -- Every mark leaves its number among those that the next one has to exceed.
  induction ranges generalizing host with
  | nil => exact ⟨[], rfl, .nil, fun n hn => absurd hn List.not_mem_nil⟩
  | cons range rest ih =>
    obtain ⟨hrange, hrest⟩ := List.forall_mem_cons.1 hn
    have hready : Host.Ready { host with selected := some range } :=
      ⟨⟨hh.isOpen, hh.outages⟩, hh.pending, hh.wellFormed⟩
    rcases markSelection_cases hw ha hready rfl hrange with
      ⟨live, n, after, hrun, hmarked⟩ | ⟨mishap, after, hrun, hleft, hbody⟩
    · obtain ⟨ns, htags, hrising, habove⟩ := ih hmarked.ready hrest
      obtain ⟨m, hm, hnumber⟩ := hmarked.exists_numbered
      refine ⟨n :: ns, ?_, List.pairwise_cons.2 ⟨?_, hrising⟩, List.forall_mem_cons.2 ⟨?_, ?_⟩⟩
      · simp only [markEach, hrun, htags, List.map_cons]
      · intro k hk
        exact habove k hk m hm n hnumber
      · exact hmarked.above
      · intro k hk e he
        exact habove k hk e (hmarked.markers_subset he)
    · obtain ⟨ns, htags, hrising, habove⟩ := ih hleft hrest
      refine ⟨ns, ?_, hrising, ?_⟩
      · simp only [markEach, hrun, htags]
      · rwa [hbody] at habove

end

/-- A selection of distinct paragraphs is marked if they stand directly in the body: the tag is the
prefix and a number above all that there are, and what is found as the selection that was marked
last are these paragraphs in their order.  Otherwise the marking fails and leaves the body as it is,
with nothing queued.  Over a row of marks the numbers rise.  A number that is too long to be read or
to be written stops the marking at its start. -/
theorem markSelection_is_latest (hh : host.Ready)
    (hw : isWritable rules.selectionPrefix.toList = true) (ha : isWritable appearance.toList = true)
    (hs : host.selected = some range) (hne : range ≠ []) (hn : range.Nodup)
    (hattached : ∀ h ∈ range, h ∈ host.document.body.handles) :
    (Countable rules.selectionPrefix host.document.body.markers →
      ((∀ h ∈ range, h ∈ host.document.body.ownParagraphs) →
        ∃ n after, (markSelection rules appearance).runOn host =
            (.ok (rules.selectionPrefix ++ toString n), after) ∧
          (∀ m ∈ host.document.body.markers, ∀ k,
            Numbers rules.selectionPrefix m.tag k → k < n) ∧
          (∀ m ∈ host.document.body.markers, m.tag ≠ rules.selectionPrefix ++ toString n) ∧
          (Anchor.latestSelection rules).runOn after = (.ok (some range), after)) ∧
      ((¬ ∀ h ∈ range, h ∈ host.document.body.ownParagraphs) →
        ∃ fault after, (markSelection rules appearance).runOn host =
            (.error (.failure (.markingFailed fault)), after) ∧
          after.document.body = host.document.body ∧ after.pending = [])) ∧
    (¬ Countable rules.selectionPrefix host.document.body.markers →
      ∃ f : Fault, f.family = .value ∧
        (markSelection rules appearance).runOn host = (.error (.fault f), host)) ∧
    ∀ ranges : List (List Handle), (∀ range ∈ ranges, range.Nodup) →
      ∃ ns : List Nat, (markEach rules appearance ranges host).1 =
        ns.map (fun n => rules.selectionPrefix ++ toString n) ∧ ns.Pairwise (· < ·) := by
  have hselection := hh.selection hs hne hattached
  refine ⟨fun hc => ⟨fun hown => ?_, fun hown => ?_⟩, fun hc => ?_, fun ranges hranges => ?_⟩
  · obtain ⟨n, after, hrun, hmarked⟩ := markSelection_of_own hh hselection hne hn hc hw ha hown
    refine ⟨n, after, hrun, hmarked.above, fun m hm htag => ?_, hmarked.latestSelection⟩
    exact Nat.lt_irrefl n (hmarked.above m hm n (htag ▸ numbers_tag _ n))
  · obtain ⟨fault, after, hrun, hready, hbody⟩ :=
      markSelection_of_not_own hh hselection appearance hne hc hw hown
    exact ⟨fault, after, hrun, hbody, hready.pending⟩
  · exact markSelection_of_not_countable hh hselection appearance hc
  · obtain ⟨ns, htags, hrising, -⟩ := markEach_numbers hw ha hh hranges
    exact ⟨ns, htags, hrising⟩

/-- Paragraphs around a control that is tagged as the marked selection number three. -/
def partedLines : Document where
  body := .cons (.paragraph ⟨0⟩ "Normal" none) (.runOf "a".toList)
    (taggedLine "selected_٠٣" 1 2 ++ .single (.paragraph ⟨3⟩ "Normal" none) (.runOf "b".toList))
  nextHandle := 4

theorem markSelection_is_latest_backwards :
    let host : Host := { document := partedLines, selected := some [⟨3⟩, ⟨0⟩] }
    host.Ready ∧ Countable Rules.standard.selectionPrefix partedLines.body.markers ∧
      ∃ after, (markSelection .standard hiddenAppearance).runOn host = (.ok "selected_4", after) ∧
        (Anchor.latestSelection .standard).runOn after = (.ok (some [⟨3⟩, ⟨0⟩]), after) ∧
        (markEach .standard hiddenAppearance [[⟨3⟩, ⟨0⟩], [⟨2⟩]] host).1 = ["selected_4"] := by
  intro host
  have hready : host.Ready := ⟨⟨rfl, rfl⟩, rfl, by decide⟩
  have hle : ∀ m ∈ partedLines.body.markers,
      (number? Rules.standard.selectionPrefix m.tag).getD 0 ≤ 3 := by decide
  have hbound : 10 ≤ bound := Nat.le_self_pow (by decide) 10
  have hcountable : Countable Rules.standard.selectionPrefix partedLines.body.markers := by
    refine ⟨legible_of_length (by decide), fun m hm n hn => ?_⟩
    have := hle m hm
    rw [number?_eq_some_iff.2 hn, Option.getD_some] at this
    omega
  have hprefix : isWritable Rules.standard.selectionPrefix.toList = true := by decide
  have happearance : isWritable hiddenAppearance.toList = true := by decide
  obtain ⟨hmarked, -, -⟩ := markSelection_is_latest hready hprefix happearance rfl (by decide)
    (by decide) (by decide)
  obtain ⟨n, after, hrun, -, -, hlatest⟩ := (hmarked hcountable).1 (by decide)
  obtain ⟨left, hfour⟩ : ∃ left, (markSelection .standard hiddenAppearance).runOn host =
      (.ok "selected_4", left) := ⟨_, rfl⟩
  obtain ⟨htag, rfl⟩ := Prod.mk.inj (hrun.symm.trans hfour)
  exact ⟨hready, hcountable, after, hfour, hlatest, by decide⟩

/-- A paragraph, and a control that is tagged as the marked selection with that many nines as its
number. -/
def ninesLine (n : Nat) : Document where
  body := .cons (.paragraph ⟨0⟩ "Normal" none) (.runOf "a".toList)
    (taggedLine ("selected_" ++ String.ofList (List.replicate n '9')) 1 2)
  nextHandle := 3

/-- The paragraph is not marked, since the number of the control is too long to be read. -/
theorem markSelection_stopped_by_4301_nines :
    let host : Host := { document := ninesLine 4301, selected := some [⟨0⟩] }
    host.Ready ∧ isWritable Rules.standard.selectionPrefix.toList = true ∧
      Host.selection.runOn host = (.ok (some [⟨0⟩]), host) ∧
      (∀ h ∈ [⟨0⟩], h ∈ host.document.body.ownParagraphs) ∧
      (markSelection .standard hiddenAppearance).runOn host =
        (.error (.fault (.longInteger 4301)), host) := by
  intro host
  have hready : host.Ready := ⟨⟨rfl, rfl⟩, rfl, by decide⟩
  have hselection : Host.selection.runOn host = (.ok (some [⟨0⟩]), host) := rfl
  have hmarkers : host.document.body.markers =
      [⟨"selected_" ++ String.ofList (List.replicate 4301 '9'), none, ⟨1⟩⟩] := rfl
  have hprefix : Rules.standard.selectionPrefix = "selected_" := rfl
  have hrow := tagRow_append "selected_" (isRow_replicate (n := 4301) (c := '9') (by decide)
    (by decide))
  have hlong := selectionNumber_of_long hrow (by rw [List.length_replicate]; decide)
  have hnumbered : numbered Rules.standard.selectionPrefix host.document.body.markers =
      .error (.longInteger 4301) := by
    rw [hmarkers, hprefix, numbered, hlong, List.length_replicate]
    rfl
  exact ⟨hready, by decide, hselection, by decide,
    markSelection_of_numbered_error hready hselection hnumbered⟩

end Anchor

end Redline
