import Redline.Proofs.Document.Wrapping
import Redline.Proofs.Forest.Rows
import Redline.Proofs.Session

/-!
# Marking a selection

A selection is marked by wrapping its paragraphs in a content control.  The paragraphs of the
document stay what they are and where they are, and so do the ranges of bookmarks, with two
exceptions: a mark that stands between the selected paragraphs is left behind, and belongs to other
neighbours then; and a search backwards from an end behind the selection goes into the text boxes of
its last paragraph.

## Main results

* `Anchor.markSelection_keeps_ranges` — what marking a selection leaves as it was.
* `Anchor.markSelection_moves_bookmark` — a bookmark around a selected paragraph moves to another.
-/

namespace Redline

open Editing Forest

variable {host after : Host} {d : Document} {f : Forest} {rules : Rules} {appearance : String}
  {first control : Handle} {others range : List Handle} {ps : List Paragraph}

/-! ## The body with the control -/

/-- The control of a wrapped range may get other properties. -/
theorem Forest.modify_wrapped {properties : ControlProperties}
    (hn : (f.rewrite (wrapping first range (gathered control (some properties) ps))).handles.Nodup)
    (hcontrol : control ∉ f.handles) (hfirst : first ∈ range)
    (change : ControlProperties → ControlProperties) :
    (f.rewrite (wrapping first range (gathered control (some properties) ps))).modify control
        (Effect.reproperty change) =
      f.rewrite (wrapping first range (gathered control (some (change properties)) ps)) := by
  rw [modify_eq_replaceAt, replaceAt_rewrite hcontrol hn]
  refine rewrite_congr fun p hp => ?_
  by_cases hpf : p.handle = first
  · have hhas : (Element.control control (some properties)).has control = true :=
      Element.has_iff.2 rfl
    simp [wrapping, hpf, hfirst, gathered, single, replaceAt, hhas, Effect.reproperty]
  · rw [replaceAt_of_notMem (notMem_wrapping hp hpf hcontrol), wrapping, wrapping, if_neg hpf,
      if_neg hpf]

/-- The body of a document when a control has been made, a range has been wrapped in it, and its
appearance has been set, whether that succeeded or not. -/
theorem Document.body_marked (hd : d.WellFormed) (hps : ps ⊆ d.body.own)
    (hrange : ps.map (·.handle) = first :: others) (hn : (first :: others).Nodup)
    (tag appearance : String) :
    ∃ properties, ((d.withPart
        (single (.control ⟨d.nextHandle⟩ (some { tag := some tag })) .nil)).applyAll Effect.apply
          [.wrap ⟨d.nextHandle⟩ first others tag,
            .setAppearance ⟨d.nextHandle⟩ appearance]).document.body =
      d.body.rewrite
        (wrapping first (first :: others) (gathered ⟨d.nextHandle⟩ properties ps)) := by
  set made := d.withPart (single (.control ⟨d.nextHandle⟩ (some { tag := some tag })) .nil)
    with hmade
  have hwell : made.WellFormed :=
    hd.withPart rfl (by simp [ofKind_single, Element.characters])
  have hnew : ⟨true, single (.control ⟨d.nextHandle⟩ (some { tag := some tag })) .nil⟩ ∈
      made.loose := List.mem_append_right _ (List.mem_singleton_self _)
  have hhas : (Element.control ⟨d.nextHandle⟩ (some { tag := some tag })).has
      ⟨d.nextHandle⟩ = true := Element.has_iff.2 rfl
  have hown : ∀ h ∈ first :: others, h ∈ made.body.ownParagraphs := by
    rw [← hrange, ownParagraphs_eq]
    exact List.map_subset _ hps
  have hlast := hrange.trans (lastPlaces_of_nodup hn).symm
  have hwrap := apply_wrap hwell hnew hhas hown rfl rfl tag hps hlast
  have hnodup := (wellFormed_wrapped hwell hnew hhas hown rfl rfl hps hlast).nodup_body
  rw [applyAll_cons_of_done hwrap, document_applyAll_singleton, Effect.apply,
    Effect.applySetProperty]
  split
  · exact ⟨_, rfl⟩
  · split
    · exact ⟨_, rfl⟩
    · exact ⟨_, modify_wrapped hnodup (notMem_body_of_loose hwell hnew hhas) List.mem_cons_self _⟩

/-! ## The run -/

namespace Anchor

/-- Marking a selection fails before anything is queued, or it flushes two effects. -/
theorem markSelection_leaves (rules : Rules) (appearance : String) (hh : host.Ready)
    (hs : Host.selection.runOn host = (.ok (some range), host)) :
    ((markSelection rules appearance).runOn host).2 = host ∨
      ∃ first others tag, range = first :: others ∧
        ((markSelection rules appearance).runOn host).2 = (Host.flush.runOn (host.queueing
          (host.document.withPart
            (single (.control ⟨host.document.nextHandle⟩ (some { tag := some tag })) .nil))
          [.wrap ⟨host.document.nextHandle⟩ first others tag,
            .setAppearance ⟨host.document.nextHandle⟩ appearance])).2 := by
  rw [markSelection, runOn_bind, runOn_ensureHost hh.isOpen]
  dsimp only
  rw [runOn_bind, hs]
  dsimp only
  rw [runOn_bind, hh.markers]
  dsimp only
  rw [runOn_bind]
  cases numbered rules.selectionPrefix host.document.body.markers with
  | error fault => exact .inl rfl
  | ok marked =>
    rw [runOn_lift_ok]
    dsimp only
    rw [runOn_bind]
    cases Numeral.write (Document.largest 0 (marked.map (·.1)) + 1) with
    | error fault => exact .inl rfl
    | ok numeral =>
      rw [runOn_lift_ok]
      dsimp only
      generalize rules.selectionPrefix ++ numeral = tag
      rw [runOn_bind]
      cases range with
      | nil => exact .inl rfl
      | cons first others =>
        rcases Host.wrap_cases first others tag host with hwrap | ⟨mishap, hwrap⟩
        · rw [hwrap]
          refine .inr ⟨first, others, tag, rfl, ?_⟩
          dsimp only
          rw [runOn_bind, Host.runOn_queue_queueing]
          dsimp only
          rw [List.singleton_append, catchRefusal_bind_leaves]
          intro r left
          cases r <;> rfl
        · rw [hwrap]
          exact .inl rfl

/-- Marking a selection of consecutive paragraphs that stand directly in the body changes no
paragraph, whether it succeeds or fails.  A bookmark keeps its range unless one of its marks stands
between the paragraphs; where it closes in the last of them from behind and there is a text box in
it, all but the first paragraph may be lost. -/
theorem markSelection_keeps_ranges (hh : host.Ready)
    (hs : Host.selection.runOn host = (.ok (some range), host))
    (hr : range <:+: host.document.body.listed)
    (hown : ∀ h ∈ range, h ∈ host.document.body.ownParagraphs) {outcome : Except Mishap String}
    (hrun : (markSelection rules appearance).runOn host = (outcome, after)) :
    after.document.paragraphs = host.document.paragraphs ∧
      ∀ b ∈ host.document.body.bookmarks, ¬ host.document.body.Disturbed range b →
        b ∈ after.document.body.bookmarks ∧
          (after.document.body.bookmarkRange b = host.document.body.bookmarkRange b ∨
            host.document.body.ClosesBehind range b ∧
              after.document.body.bookmarkRange b =
                (host.document.body.bookmarkRange b).take 1) := by
  obtain rfl : ((markSelection rules appearance).runOn host).2 = after := by rw [hrun]
  have hn := hh.wellFormed.nodup_body
  have hlisted := hn.sublist (listed_sublist_handles _)
  rcases markSelection_leaves rules appearance hh hs with
    hleft | ⟨first, others, tag, rfl, hleft⟩
  · rw [hleft]
    exact ⟨rfl, fun b hb _ => ⟨hb, .inl rfl⟩⟩
  · obtain ⟨front, p, ps, between, row, behind, hbody, hrow, rfl, rfl⟩ := exists_row hlisted hr hown
    have hps : p :: ps ⊆ host.document.body.own := by
      have hparts : host.document.body.own = front.own ++ ((p :: ps) ++ behind.own) := by
        simp [hbody, hrow.own_eq]
      rw [hparts]
      exact List.subset_append_of_subset_right _ (List.subset_append_left _ _)
    obtain ⟨properties, hmarked⟩ := Document.body_marked hh.wellFormed hps rfl
      (hlisted.sublist hr.sublist) tag appearance
    have hafter : ((markSelection rules appearance).runOn host).2.document.body =
        front ++ (gathered ⟨host.document.nextHandle⟩ properties (p :: ps) ++
          (between ++ behind)) := by
      have hstep : Host.step host.isOpen = Effect.apply := by rw [hh.isOpen]; rfl
      rw [hleft, Host.flush_leaves, Host.isOpen_queueing, hstep]
      simp only [Host.queueing, hh.pending, List.nil_append, hmarked]
      rw [hbody] at hlisted ⊢
      exact rewrite_wrapping hrow hlisted rfl _
    rw [Document.paragraphs, Document.paragraphs, hafter]
    rw [hbody] at hn ⊢
    have hamid := amid_eq hrow (hn.sublist (listed_sublist_handles _)) rfl
    refine ⟨hrow.paragraphs_gathered, fun b hb hnot => ⟨?_, ?_⟩⟩
    · exact hrow.mem_bookmarks_gathered (fun hm => hnot (.inl (hamid ▸ hm))) hb
    · exact hrow.bookmarkRange_gathered hn rfl hnot

/-- Three paragraphs, with a bookmark around the first two of them. -/
def bookmarkedLines : Document where
  body :=
    .cons (.bookmarkStart "bm" "0") .nil
      (.cons (.paragraph ⟨0⟩ "Normal" none) (.runOf "a".toList)
      (.cons (.paragraph ⟨1⟩ "Normal" none) (.runOf "b".toList)
      (.cons (.bookmarkEnd "0") .nil
      (.single (.paragraph ⟨2⟩ "Normal" none) (.runOf "c".toList)))))
  nextHandle := 3

/-- The paragraphs in the bookmark are marked, and the bookmark still has both of them. -/
theorem markSelection_keeps_ranges_around :
    let host : Host := { document := bookmarkedLines, selected := some [⟨0⟩, ⟨1⟩] }
    ∃ after, (markSelection .standard hiddenAppearance).runOn host = (.ok "selected_1", after) ∧
      after.document.paragraphs = bookmarkedLines.paragraphs ∧
      ⟨"bm", "0", some ⟨0⟩⟩ ∈ after.document.body.bookmarks ∧
      after.document.body.bookmarkRange ⟨"bm", "0", some ⟨0⟩⟩ = [⟨0⟩, ⟨1⟩] := by
  intro host
  have hready : host.Ready := ⟨⟨rfl, rfl⟩, rfl, by decide⟩
  obtain ⟨after, hrun⟩ : ∃ after,
      (markSelection .standard hiddenAppearance).runOn host = (.ok "selected_1", after) := ⟨_, rfl⟩
  have hselected : Host.selection.runOn host = (.ok (some [⟨0⟩, ⟨1⟩]), host) := rfl
  obtain ⟨hparagraphs, hbookmarks⟩ :=
    markSelection_keeps_ranges hready hselected (by decide) (by decide) hrun
  obtain ⟨hmem, hkept⟩ := hbookmarks ⟨"bm", "0", some ⟨0⟩⟩ (by decide) (by decide)
  refine ⟨after, hrun, hparagraphs, hmem, (hkept.resolve_right ?_).trans (by decide)⟩
  exact fun h => absurd h.1 (by decide)

/-- Three paragraphs, with a bookmark around the second one. -/
def bookmarkedLine : Document where
  body :=
    .cons (.paragraph ⟨0⟩ "Normal" none) (.runOf "a".toList)
      (.cons (.bookmarkStart "bm" "0") .nil
      (.cons (.paragraph ⟨1⟩ "Normal" none) (.runOf "b".toList)
      (.cons (.bookmarkEnd "0") .nil
      (.single (.paragraph ⟨2⟩ "Normal" none) (.runOf "c".toList)))))
  nextHandle := 3

/-- The first two paragraphs are marked, and the bookmark around the second one moves to the third
one. -/
theorem markSelection_moves_bookmark :
    let host : Host := { document := bookmarkedLine, selected := some [⟨0⟩, ⟨1⟩] }
    host.Ready ∧ Host.selection.runOn host = (.ok (some [⟨0⟩, ⟨1⟩]), host) ∧
      [⟨0⟩, ⟨1⟩] <:+: bookmarkedLine.body.listed ∧
      (∀ h ∈ [⟨0⟩, ⟨1⟩], h ∈ bookmarkedLine.body.ownParagraphs) ∧
      bookmarkedLine.body.bookmarks = [⟨"bm", "0", some ⟨1⟩⟩] ∧
      bookmarkedLine.body.bookmarkRange ⟨"bm", "0", some ⟨1⟩⟩ = [⟨1⟩] ∧
      ∃ after, (markSelection .standard hiddenAppearance).runOn host = (.ok "selected_1", after) ∧
        after.document.body.bookmarks = [⟨"bm", "0", some ⟨2⟩⟩] ∧
        after.document.body.bookmarkRange ⟨"bm", "0", some ⟨2⟩⟩ = [⟨2⟩] :=
  ⟨⟨⟨rfl, rfl⟩, rfl, by decide⟩, rfl, by decide, by decide, by decide, by decide, _, rfl, by decide,
    by decide⟩

end Anchor

end Redline
