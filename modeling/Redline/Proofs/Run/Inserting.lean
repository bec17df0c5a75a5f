import Redline.Proofs.Execution.Accepting
import Redline.Proofs.Execution.Choosing
import Redline.Proofs.Plan.WrittenForm
import Redline.Proofs.Snapshot.Recovery
import Redline.Proofs.Snapshot.Refinement
import Redline.Proofs.Snapshot.Stopping

/-!
# Insertions behind a heading

A block plan can insert a line behind the block of a heading, an edit plan a paragraph behind the
heading with a text.  The one finds the heading by the id that a snapshot has given it, the other by
what its text scores.  When no other heading has that text, both find the same paragraph; and then
they queue the same effects.  So they end alike also where the document does not know the style that
the new paragraph is to have: the paragraph is inserted, and the style stops both runs.

## Main definitions

* `BlockPlan.inserting`, `EditPlan.inserting` — the two plans.

## Main results

* `insertions_succeed`, `insertions_fail` — the runs in a document that knows the normal style, and in
  one that does not.
* `insertions_agree` — both plans are accepted, and their runs leave the same host.
-/

namespace Redline

open Editing Redline.Text

variable {rules : Rules} {host mid after : Host} {p : Passage}
  {id content reason anchor text : String} {position : Json}

/-! ## The plans -/

/-- The block plan that inserts a text behind a block. -/
def BlockPlan.inserting (id content reason : String) : BlockPlan :=
  ⟨[⟨.insertAfter, id, content, reason⟩]⟩

/-- The edit plan that inserts a paragraph behind the heading with a text. -/
def EditPlan.inserting (anchor text : String) (position : Json) (content : String) : EditPlan :=
  ⟨[.insertText anchor .afterHeading (.str text) position [.paragraph content none]]⟩

/-- The edit plan is accepted in its written form. -/
theorem readEditPlan_inserting (position : Json) (hanchor : (Json.str anchor).IsVisible .standard)
    (htext : (Json.str text).IsVisible .standard) (hne : content ≠ "")
    (hlength : Rules.standard.Admits content) (hreturn : '\r' ∉ content.toList)
    (hfeed : '\n' ∉ content.toList) :
    Check.readEditPlan .standard (EditPlan.inserting anchor text position content).toJson =
      .ok (.inserting anchor text position content) := by
  have hbreak : Check.hasLineBreak content = false := by
    simp only [Check.hasLineBreak, List.any_eq_false, Bool.or_eq_true, beq_iff_eq, not_or]
    exact fun c hc => ⟨fun h => hfeed (h ▸ hc), fun h => hreturn (h ▸ hc)⟩
  -- A value that the plan is read from.  The written form is not as plain: it has no position when
  -- that is null.
  let block : Json := .obj [("type", .str "paragraph"), ("text", .str content)]
  let action : Json := .obj [("type", .str "insert_text"), ("anchor", .str anchor),
    ("location", .str "after_heading"), ("heading_text", .str text), ("position", position),
    ("blocks", .arr [block])]
  have hblock : block.GivesBlock .standard (.paragraph content none) :=
    .paragraph rfl rfl hne hlength hbreak rfl
  have hblocks : (Json.arr [block]).GivesBlocks .standard [.paragraph content none] :=
    ⟨_, rfl, by simp, by simp [Rules.standard], .cons hblock .nil⟩
  have hgives : (Json.obj [("version", .str "1.0"), ("actions", .arr [action])]).GivesPlan .standard
      (.inserting anchor text position content) := by
    refine ⟨_, _, rfl, rfl, rfl, .inr ⟨by simp [Rules.standard], by simp [Check.planFields]⟩,
      .cons ⟨rfl, ?_⟩ .nil⟩
    exact .insertText rfl hanchor rfl rfl rfl (fun _ => htext) rfl (fun h => absurd h (by decide))
      hblocks
  exact Check.readEditPlan_eq_ok_iff.2 (Json.toJson_givesPlan hgives)

/-! ## Lines and paragraphs -/

/-- A text without line ends is one line. -/
theorem Text.linesFrom_of_line {line text : List Char} (hreturn : '\r' ∉ text)
    (hfeed : '\n' ∉ text) : linesFrom line text = [line.reverse ++ text] := by
  induction text generalizing line with
  | nil => simp [linesFrom]
  | cons c rest ih =>
    rw [List.mem_cons, not_or] at hreturn hfeed
    rw [linesFrom.eq_5 _ _ _ (fun _ hc => absurd hc.symm hreturn.1) (Ne.symm hreturn.1)
      (Ne.symm hfeed.1), ih hreturn.2 hfeed.2]
    simp

/-- Paragraphs that leave their looks open are inserted as lines are. -/
theorem Execution.insertBlocks_paragraphs (setting : Setting) (insert : String → Editing Handle)
    (lines : List (List Char)) :
    insertBlocks setting insert (lines.map fun line => .paragraph (String.ofList line) none) =
      Snapshot.insertLines setting.rules insert lines := by
  induction lines generalizing insert with
  | nil => rfl
  | cons line rest ih =>
    simp only [List.map_cons, insertBlocks, Snapshot.insertLines, ih, blockText, queueBlockStyle,
      blockStyleName, blockLook, bind_assoc, pure_bind]

/-- The host when a line has been queued behind a paragraph, as one of the normal style. -/
def Host.queueingLine (rules : Rules) (content : String) (h : Handle) (host : Host) : Host :=
  host.queueing (host.document.make content)
    [.insertBeside ⟨host.document.nextHandle⟩ content .after h,
      .setStyle ⟨host.document.nextHandle⟩ rules.normalStyle]

section
variable {h : Handle} (hh : host.Ready)
include hh

theorem Snapshot.insertLine_queued (rules : Rules) (h : Handle)
    (hw : isWritable content.toList = true) :
    (insertLines rules (fun text => Host.insertParagraph text h .after) [content.toList]).runOn
      host = (.ok (), host.queueingLine rules content h) := by
  have hitem : Execution.itemOf String.ofList (lineLooks rules) content.toList =
      some (content, [.style rules.normalStyle]) :=
    Execution.itemOf_eq_some.2 ⟨by simpa using hw, _, rfl, by simp⟩
  rw [Execution.insertLines_eq_insertEach]
  exact (Execution.insertEach_eq_ok (dress_line rules) hh.isOpen).2 ⟨_, .cons hitem .nil, rfl⟩

variable (hl : h ∈ host.document.body.listed)
include hl

/-- A line that has been queued becomes a paragraph of the normal style if the document knows that
style. -/
theorem Host.flush_queueingLine (hknows : host.document.styles.Knows rules.normalStyle) :
    ∃ n after, Host.flush.runOn (host.queueingLine rules content h) = (.ok n, after) ∧
      after.document.body = host.document.body.rewriteAt h (·.beside .after
        [{ Document.made host.document.styles host.document.nextHandle content with
          style := host.document.styles.shownAs rules.normalStyle }]) := by
  obtain ⟨style, hstyle⟩ := hknows
  have hnew : Document.Dressed host.document.styles
      (Document.insertions host.document.styles host.document.nextHandle
        [(content, [.style rules.normalStyle])])
      [{ Document.made host.document.styles host.document.nextHandle content with style }] :=
    .cons (Snapshot.giveAll_style.2 ⟨style, hstyle, rfl⟩) .nil
  have hbecomes : (host.document.make content).Becomes _
      (Execution.inserting .after h _ _ host.document) :=
    (Execution.becomes_inserting hh.wellFormed hl).2 ⟨_, hnew, rfl⟩
  obtain ⟨n, hflush⟩ := hh.flush_queueing.2 ⟨_, hbecomes, rfl⟩
  rw [Stylesheet.shownAs_of_resolve hstyle]
  exact ⟨n, _, hflush, Execution.body_inserting⟩

/-- Otherwise the flush fails when the paragraph stands in its place already. -/
theorem Host.flush_queueingLine_unknown
    (hunknown : ¬ host.document.styles.Knows rules.normalStyle) :
    ∃ f after, Host.flush.runOn (host.queueingLine rules content h) = (.error (.fault f), after) ∧
      f.family = .host ∧ after.pending = [] ∧
      after.document.body = host.document.body.rewriteAt h (·.beside .after
        [Document.made host.document.styles host.document.nextHandle content]) := by
  obtain ⟨cause, hcause⟩ : ∃ cause,
      host.document.styles.resolve rules.normalStyle = .error cause := by
    cases hresolve : host.document.styles.resolve rules.normalStyle with
    | ok name => exact absurd ⟨name, hresolve⟩ hunknown
    | error cause => exact ⟨cause, rfl⟩
  have hnew : Document.Dressed host.document.styles
      (Document.insertions host.document.styles host.document.nextHandle [(content, [])])
      [Document.made host.document.styles host.document.nextHandle content] := .cons rfl .nil
  have hbecomes : (host.document.make content).Becomes
      [.insertBeside ⟨host.document.nextHandle⟩ content .after h]
      (Execution.inserting .after h _ _ host.document) :=
    (Execution.becomes_inserting hh.wellFormed hl).2 ⟨_, hnew, rfl⟩
  have hqueue : (host.queueingLine rules content h).pending =
      [.insertBeside ⟨host.document.nextHandle⟩ content .after h] ++
        .setStyle ⟨host.document.nextHandle⟩ rules.normalStyle :: [] :=
    congrArg (· ++ _) hh.pending
  have hflush := Host.flush_of_fault (by exact hh.isOpen) hqueue hbecomes
    (Effect.apply_setStyle_of_error (hbecomes.styles.symm ▸ hcause) _)
  exact ⟨_, _, hflush, rfl, rfl, Execution.body_inserting⟩

end

/-! ## The block plan -/

namespace Snapshot

/-- In the document that a snapshot was taken from, every block finds its own paragraph. -/
theorem rematch_ofPassages (rules : Rules) (epoch : String) (ha : host.Answers) :
    ∃ m, ((ofPassages rules epoch host.document.passages).rematch rules).runOn host =
        (.ok m, host) ∧ m.matched = numbered host.document.passages := by
  have hwoven : Woven Passage.Same (fun _ => False) host.document.passages host.document.passages :=
    Forest.Grows.passages (.refl host.document.body) (fun _ => False) fun _ _ h => h
  obtain ⟨found, used, hsame, hsub, hmapping⟩ := mapping_ofPassages rules epoch hwoven
    (fun _ hnew => hnew.elim) host.document.nodup_index_passages
  obtain rfl := hsub.eq_of_length hsame.length_eq.symm
  refine ⟨{ matched := numbered host.document.passages, unmatched := [], used }, ?_, rfl⟩
  rw [rematch, runOn_bind, ha.paragraphs]
  simp only [hmapping]
  rfl

/-- A paragraph that has an id is one of the document's, and more than blanks when it is trimmed. -/
theorem mem_of_mem_numbered {passages : List Passage} (h : (id, p) ∈ numbered passages) :
    p ∈ passages ∧ allBlank (trimmed p.text).toList = false := by
  have hp : p ∈ candidates passages := by
    rw [← map_snd_numberedFrom 0 (candidates passages)]
    exact List.mem_map.2 ⟨_, h, rfl⟩
  obtain ⟨hmem, hvisible⟩ := List.mem_filter.1 hp
  refine ⟨hmem, ?_⟩
  rw [← isEmpty_trimmed, trimmed, trimmed, String.toList_ofList, strip_strip, ← trimmed,
    isEmpty_trimmed]
  simpa using hvisible

theorem allBlank_of_mem_numbered {passages : List Passage} (h : (id, p) ∈ numbered passages) :
    allBlank id.toList = false := by
  obtain ⟨k, -, rfl⟩ := mem_ids_numberedFrom (List.mem_map.2 ⟨_, h, rfl⟩)
  have hfirst : (blockId k).toList = 'b' :: (Nat.repr (k + 1)).toList := by
    simp only [blockId, String.toList_append]
    rfl
  have hvisible : isBlank 'b' = false := by decide
  simp [allBlank, hfirst, hvisible]

section
variable (epoch reason : String) (hh : host.Ready)
  (hid : (id, p) ∈ numbered host.document.passages) (hreturn : '\r' ∉ content.toList)
  (hfeed : '\n' ∉ content.toList)
  (hwork : (insertLines rules (fun text => Host.insertParagraph text p.handle .after)
    [content.toList]).runOn host = (.ok (), mid))
include hh hid hreturn hfeed hwork

/-- The line is queued behind the paragraph of the block. -/
theorem preparation_inserting :
    ∃ m, ((ofPassages rules epoch host.document.passages).rematch rules).runOn host =
        (.ok m, host) ∧
      (preparation rules (ofPassages rules epoch host.document.passages) m
        ⟨.insertAfter, id, content, reason⟩).runOn host = (.ok (), mid) := by
  obtain ⟨m, hm, hmatched⟩ := rematch_ofPassages rules epoch hh.toAnswers
  have hblock : (ofPassages rules epoch host.document.passages).blocks.lookup id =
      some (blockOf rules id p) := block?_ofPassages rules epoch hid
  have hlookup : m.matched.lookup id = some p :=
    hmatched ▸ lookup_of_mem (nodup_ids_numberedFrom 0 (candidates host.document.passages)) hid
  have htarget : ((ofPassages rules epoch host.document.passages).target m
      ⟨.insertAfter, id, content, reason⟩).runOn host = (.ok p, host) :=
    target_eq_ok.2 ⟨by simp [hblock], hlookup, rfl⟩
  have hlines : lines content.toList = [content.toList] := linesFrom_of_line hreturn hfeed
  have hperform : (performOperation rules ⟨.insertAfter, id, content, reason⟩ p.handle).runOn host =
      (.ok (), mid) := by
    rw [performOperation, hlines]
    exact hwork
  exact ⟨m, hm, bind_eq_ok.2 ⟨p, host, htarget, hperform⟩⟩

theorem run_inserting {n : Nat} (hflush : Host.flush.runOn mid = (.ok n, after)) :
    (run rules (ofPassages rules epoch host.document.passages)
      (.inserting id content reason)).runOn host = (.ok (), after) := by
  obtain ⟨m, hm, hprepared⟩ :=
    preparation_inserting epoch reason hh hid hreturn hfeed hwork
  have hflushed := Host.thenFlush_eq_ok.2 ⟨mid, hprepared, n, hflush⟩
  rw [run_of_rematch hh.isOpen hm]
  exact bind_eq_ok.2 ⟨(), after, runOperation_eq_ok_iff.2 hflushed, rfl⟩

/-- A flush that the host refuses to finish is the failure of the run. -/
theorem run_inserting_failed {f : Fault} (hflush : Host.flush.runOn mid = (.error (.fault f), after))
    (hf : f.family = .host) (hp : after.pending = []) :
    (run rules (ofPassages rules epoch host.document.passages)
      (.inserting id content reason)).runOn host =
        (.error (.failure (.operationFailed 0 id f)), after) := by
  obtain ⟨m, hm, hprepared⟩ :=
    preparation_inserting epoch reason hh hid hreturn hfeed hwork
  have hdropped : { after with pending := [] } = after := by rw [← hp]
  rw [run_of_rematch hh.isOpen hm, BlockPlan.inserting, runOperations, runOn_bind, runOperation_eq,
    asOperation, runOn_tryCatch, thenFlush, runOn_bind, hprepared]
  dsimp only
  rw [runOn_bind, hflush]
  simp [hf, Host.discard, runOn_bind, hdropped]

end

end Snapshot

/-! ## The edit plan -/

/-- The only heading with a text is the first one that is equal to it. -/
theorem Heading.firstEqual?_of_only {passages : List Passage} (hp : p ∈ headings rules passages)
    (honly : ∀ q ∈ headings rules passages, normalized q.text = normalized p.text → q = p) :
    firstEqual? rules passages (trimmed p.text) = some p := by
  have htext : normalized (trimmed p.text) = normalized p.text := by simp [normalized, trimmed]
  rw [firstEqual?, htext]
  cases hfound : (headings rules passages).find? fun q =>
      normalized p.text == normalized q.text with
  | none => exact absurd (List.find?_eq_none.1 hfound p hp) (by simp)
  | some q =>
    have hequal : normalized p.text = normalized q.text := by simpa using List.find?_some hfound
    rw [honly q (List.mem_of_find?_eq_some hfound) hequal.symm]

/-- The standard score, exact or rounded, picks headings by a text that is not blank. -/
theorem Execution.picksEqual_overlap (rules : Rules) (ha : host.Answers)
    (hvisible : allBlank text.toList = false) :
    PicksEqual ⟨rules, Heading.exactScorer Heading.overlap⟩ text host ∧
      ((∀ q ∈ host.document.passages, (Heading.normalized q.text).length ≤ 2 ^ 53) →
        PicksEqual ⟨rules, Heading.overlapScore⟩ text host) := by
  have hne := Heading.normalized_ne_nil hvisible
  refine ⟨picksEqual_of_full ha fun q _ => Heading.exactScorer_overlap_eq_top_iff hne,
    fun hsize => picksEqual_of_full ha fun q hq => ?_⟩
  have hlength := hsize q (List.mem_filter.1 hq).1
  exact (Heading.overlapScore_eq_top_iff hlength).trans (and_iff_left hne)

namespace Execution

section
variable {setting : Setting} (hopen : host.isOpen = true)
  (hpicks : PicksEqual setting text host)
  (hp : Heading.firstEqual? setting.rules host.document.passages text = some p)
  (hwork : (Snapshot.insertLines setting.rules
    (fun text => Host.insertParagraph text p.handle .after) [content.toList]).runOn host =
      (.ok (), mid))
include hpicks hp hwork

/-- The paragraph is queued behind the heading as the line is. -/
theorem perform_inserting (anchor : String) (position : Json) :
    let action : Action :=
      .insertText anchor .afterHeading (.str text) position [.paragraph content none]
    (perform setting action.kind action).runOn host = (.ok (), mid) := by
  have hblocks := insertBlocks_paragraphs setting
    (fun text => Host.insertParagraph text p.handle .after) [content.toList]
  rw [List.map_cons, List.map_nil, String.ofList_toList] at hblocks
  exact (hpicks.inserts p hp anchor position _).trans (hblocks ▸ hwork)

include hopen

theorem run_inserting {n : Nat} (hflush : Host.flush.runOn mid = (.ok n, after)) :
    ∃ message, (run setting (EditPlan.inserting anchor text position content).typed).runOn host =
      (.ok (.success message), after) :=
  run_single_ok hopen
    (does_iff.2 ⟨mid, perform_inserting hpicks hp hwork anchor position, n, hflush⟩)

theorem run_inserting_failed {f : Fault}
    (hflush : Host.flush.runOn mid = (.error (.fault f), after)) (hpending : after.pending = []) :
    ∃ added, (run setting (EditPlan.inserting anchor text position content).typed).runOn host =
      (.ok (.failed (.actionFailed "insert_text" f) added), after) := by
  have hdropped : { after with pending := [] } = after := by rw [← hpending]
  have hfailed := run_single_failed hopen
    (runAction_flush_fault (perform_inserting hpicks hp hwork anchor position) hflush)
  rw [hdropped] at hfailed
  exact ⟨_, hfailed⟩

end

end Execution

/-! ## Both plans -/

section
variable (epoch reason anchor : String) (position : Json) (hh : host.Ready)
  (hid : (id, p) ∈ Snapshot.numbered host.document.passages)
  (hfirst : Heading.firstEqual? .standard host.document.passages (trimmed p.text) = some p)
  (hreturn : '\r' ∉ content.toList) (hfeed : '\n' ∉ content.toList)
  (hw : isWritable content.toList = true)
include hh hid hfirst hreturn hfeed hw

/-- Both runs succeed if the document knows the normal style. -/
theorem insertions_succeed (hknows : host.document.styles.Knows Rules.standard.normalStyle) :
    ∃ after,
      (Snapshot.run .standard (Snapshot.ofPassages .standard epoch host.document.passages)
        (.inserting id content reason)).runOn host = (.ok (), after) ∧
      (∀ scorer, Execution.PicksEqual ⟨.standard, scorer⟩ (trimmed p.text) host →
        ∃ message, (Execution.run ⟨.standard, scorer⟩
          (EditPlan.inserting anchor (trimmed p.text) position content).typed).runOn host =
            (.ok (.success message), after)) ∧
      after.document.body = host.document.body.rewriteAt p.handle (·.beside .after
        [{ Document.made host.document.styles host.document.nextHandle content with
          style := host.document.styles.shownAs Rules.standard.normalStyle }]) := by
  have hl := Execution.mem_listed_of_mem_passages (Snapshot.mem_of_mem_numbered hid).1
  have hwork := Snapshot.insertLine_queued hh .standard p.handle hw
  obtain ⟨n, after, hflush, hbody⟩ := @Host.flush_queueingLine _ _ content _ hh hl hknows
  exact ⟨after, Snapshot.run_inserting epoch reason hh hid hreturn hfeed hwork hflush,
    fun _ hpicks => Execution.run_inserting hh.isOpen hpicks hfirst hwork hflush, hbody⟩

/-- Otherwise both fail, when the paragraph has been inserted and is to get its style. -/
theorem insertions_fail (hunknown : ¬ host.document.styles.Knows Rules.standard.normalStyle) :
    ∃ cause after, cause.family = .host ∧
      (Snapshot.run .standard (Snapshot.ofPassages .standard epoch host.document.passages)
        (.inserting id content reason)).runOn host =
          (.error (.failure (.operationFailed 0 id cause)), after) ∧
      (∀ scorer, Execution.PicksEqual ⟨.standard, scorer⟩ (trimmed p.text) host →
        ∃ added, (Execution.run ⟨.standard, scorer⟩
          (EditPlan.inserting anchor (trimmed p.text) position content).typed).runOn host =
            (.ok (.failed (.actionFailed "insert_text" cause) added), after)) ∧
      after.document.body = host.document.body.rewriteAt p.handle (·.beside .after
        [Document.made host.document.styles host.document.nextHandle content]) := by
  have hl := Execution.mem_listed_of_mem_passages (Snapshot.mem_of_mem_numbered hid).1
  have hwork := Snapshot.insertLine_queued hh .standard p.handle hw
  obtain ⟨cause, after, hflush, hfamily, hpending, hbody⟩ :=
    @Host.flush_queueingLine_unknown _ _ content _ hh hl hunknown
  exact ⟨cause, after, hfamily,
    Snapshot.run_inserting_failed epoch reason hh hid hreturn hfeed hwork hflush hfamily hpending,
    fun _ hpicks => Execution.run_inserting_failed hh.isOpen hpicks hfirst hwork hflush hpending,
    hbody⟩

end

/-- The two families of plans insert alike.  Let a heading of a document have a text that no other
heading has.  Then a block plan that inserts a line behind the block of the heading and an edit plan
that inserts a paragraph with that text behind the heading of its text are both accepted, and their
runs leave the same host, whose document has one paragraph more, directly behind the heading.  Both
runs succeed if the document knows the normal style, and otherwise both fail for the same cause.  The
heading is found by its exact score, and by its rounded score as well as long as no paragraph has more
than `2 ^ 53` characters. -/
theorem insertions_agree (epoch reason : String) (position : Json) (hh : host.Ready)
    (hid : (id, p) ∈ Snapshot.numbered host.document.passages)
    (hheading : Rules.standard.isHeading p.style = true)
    (honly : ∀ q ∈ Heading.headings .standard host.document.passages,
      Heading.normalized q.text = Heading.normalized p.text → q = p)
    (htext : Rules.standard.Admits (trimmed p.text))
    (hanchor : (Json.str anchor).IsVisible .standard)
    (hne : content ≠ "") (hreturn : '\r' ∉ content.toList) (hfeed : '\n' ∉ content.toList)
    (hw : isWritable content.toList = true) (hlength : Rules.standard.Admits content) :
    (Rules.standard.Admits id →
        Check.readBlockPlan .standard (BlockPlan.inserting id content reason).toJson =
          .ok (.inserting id content reason)) ∧
      Check.readEditPlan .standard
          (EditPlan.inserting anchor (trimmed p.text) position content).toJson =
        .ok (.inserting anchor (trimmed p.text) position content) ∧
      ∃ snapshot after, (Snapshot.extract .standard epoch).runOn host = (.ok snapshot, host) ∧
        snapshot.block? (.str id) = some (Snapshot.blockOf .standard id p) ∧
        let blocks := (Snapshot.run .standard snapshot (.inserting id content reason)).runOn host
        let edits scorer := (Execution.run ⟨.standard, scorer⟩
          (EditPlan.inserting anchor (trimmed p.text) position content).typed).runOn host
        let short := ∀ q ∈ host.document.passages, (Heading.normalized q.text).length ≤ 2 ^ 53
        let made := Document.made host.document.styles host.document.nextHandle content
        let inserted (new : Paragraph) :=
          host.document.body.rewriteAt p.handle (·.beside .after [new])
        (host.document.styles.Knows Rules.standard.normalStyle →
          blocks = (.ok (), after) ∧
          (∃ message, edits (Heading.exactScorer Heading.overlap) =
            (.ok (.success message), after)) ∧
          (short → ∃ message, edits Heading.overlapScore = (.ok (.success message), after)) ∧
          after.document.body = inserted
            { made with style := host.document.styles.shownAs Rules.standard.normalStyle }) ∧
        (¬ host.document.styles.Knows Rules.standard.normalStyle → ∃ cause, cause.family = .host ∧
          blocks = (.error (.failure (.operationFailed 0 id cause)), after) ∧
          (∃ added, edits (Heading.exactScorer Heading.overlap) =
            (.ok (.failed (.actionFailed "insert_text" cause) added), after)) ∧
          (short → ∃ added, edits Heading.overlapScore =
            (.ok (.failed (.actionFailed "insert_text" cause) added), after)) ∧
          after.document.body = inserted made) := by
  obtain ⟨hmem, hblank⟩ := Snapshot.mem_of_mem_numbered hid
  have hfirst := Heading.firstEqual?_of_only (List.mem_filter.2 ⟨hmem, hheading⟩) honly
  obtain ⟨hexact, hrounded⟩ := Execution.picksEqual_overlap .standard hh.toAnswers hblank
  have hextract : (Snapshot.extract .standard epoch).runOn host =
      (.ok (Snapshot.ofPassages .standard epoch host.document.passages), host) := by
    simp [Snapshot.extract, Anchor.ensureHost, runOn_bind, runOn_map, hh.isOpen, hh.paragraphs]
  have hblock := Snapshot.block?_ofPassages .standard epoch hid
  have hvisible := Snapshot.allBlank_of_mem_numbered hid
  refine ⟨fun hshort => ?_, ?_, ?_⟩
  · exact Check.readBlockPlan_toJson (by simp [BlockPlan.inserting])
      (by simpa [BlockPlan.inserting] using ⟨⟨_, rfl, hvisible, hshort⟩, hlength⟩)
  · exact readEditPlan_inserting position hanchor ⟨_, rfl, hblank, htext⟩ hne hlength hreturn hfeed
  · by_cases hknows : host.document.styles.Knows Rules.standard.normalStyle
    · obtain ⟨after, hblocks, hedits, hbody⟩ :=
        insertions_succeed epoch reason anchor position hh hid hfirst hreturn hfeed hw hknows
      exact ⟨_, after, hextract, hblock, fun _ => ⟨hblocks, hedits _ hexact,
        fun hsize => hedits _ (hrounded hsize), hbody⟩, fun h => absurd hknows h⟩
    · obtain ⟨cause, after, hfamily, hblocks, hedits, hbody⟩ :=
        insertions_fail epoch reason anchor position hh hid hfirst hreturn hfeed hw hknows
      exact ⟨_, after, hextract, hblock, fun h => absurd h hknows, fun _ => ⟨cause, hfamily, hblocks,
        hedits _ hexact, fun hsize => hedits _ (hrounded hsize), hbody⟩⟩

/-- A heading `Costs` behind a longer heading and a line of text that reads as it does. -/
def costsBehind : Document where
  body := .cons (.paragraph ⟨0⟩ "Heading 1" none) (.runOf "All costs".toList)
    (.cons (.paragraph ⟨1⟩ "Normal" none) (.runOf "Costs".toList)
      (.cons (.paragraph ⟨2⟩ "Heading 2" none) (.runOf " Costs".toList)
        (.single (.paragraph ⟨3⟩ "Normal" none) (.runOf "Rent".toList))))
  nextHandle := 4

theorem insertions_agree_costs :
    let host : Host := { document := costsBehind }
    ∃ snapshot after message, (Snapshot.extract .standard "now").runOn host = (.ok snapshot, host) ∧
      (Snapshot.run .standard snapshot (.inserting "b3" "Travel" "")).runOn host =
        (.ok (), after) ∧
      (Execution.run ⟨.standard, Heading.overlapScore⟩
        (EditPlan.inserting "main" "Costs" .null "Travel").typed).runOn host =
          (.ok (.success message), after) ∧
      after.document.passages.map (·.text) =
        ["All costs", "Costs", " Costs", "Travel", "Rent"] := by
  intro host
  have hh : host.Ready := ⟨⟨rfl, rfl⟩, rfl, by decide⟩
  have hid : ("b3", (⟨2, " Costs", "Heading 2", ⟨2⟩⟩ : Passage)) ∈
      Snapshot.numbered host.document.passages := by decide +kernel
  have honly : ∀ q ∈ Heading.headings .standard host.document.passages,
      Heading.normalized q.text = Heading.normalized " Costs" →
        q = ⟨2, " Costs", "Heading 2", ⟨2⟩⟩ := by decide +kernel
  have htrimmed : trimmed " Costs" = "Costs" := by decide
  obtain ⟨-, -, snapshot, after, hextract, -, hsucceed, -⟩ :=
    insertions_agree "now" "" .null hh hid (by decide) honly (by decide)
      (show (Json.str "main").IsVisible .standard from ⟨_, rfl, by decide, by decide⟩)
      (show "Travel" ≠ "" by decide) (by decide) (by decide) (by decide) (by decide)
  obtain ⟨hblock, -, hedit, hbody⟩ := hsucceed (by decide +kernel)
  obtain ⟨message, hedit⟩ := hedit (by decide +kernel)
  rw [htrimmed] at hedit
  refine ⟨snapshot, after, message, hextract, hblock, hedit, ?_⟩
  rw [Document.passages, Document.paragraphs, hbody]
  decide +kernel

/-- A heading `Costs` in a document whose style for texts has another name than the normal style. -/
def costsInBody : Document where
  body := .cons (.paragraph ⟨0⟩ "Heading 1" none) (.runOf "Costs".toList)
    (.single (.paragraph ⟨1⟩ "Body" none) (.runOf "Rent".toList))
  nextHandle := 2
  styles := ⟨[{ id := some "Body", name := "Body", isDefault := true },
    { id := some "Heading1", name := "heading 1" }]⟩

/-- Both runs fail in a document that does not know the normal style, though its only heading is the
one that is meant. -/
theorem insertions_stopped_by_style :
    let host : Host := { document := costsInBody }
    let costs : Passage := ⟨0, "Costs", "Heading 1", ⟨0⟩⟩
    host.Ready ∧ ("b1", costs) ∈ Snapshot.numbered host.document.passages ∧
    Heading.headings .standard host.document.passages = [costs] ∧
    ∃ snapshot cause after, cause.family = .host ∧
      (Snapshot.extract .standard "now").runOn host = (.ok snapshot, host) ∧
      (Snapshot.run .standard snapshot (.inserting "b1" "Travel" "")).runOn host =
        (.error (.failure (.operationFailed 0 "b1" cause)), after) ∧
      (∃ added, (Execution.run ⟨.standard, Heading.exactScorer Heading.overlap⟩
        (EditPlan.inserting "main" "Costs" .null "Travel").typed).runOn host =
          (.ok (.failed (.actionFailed "insert_text" cause) added), after)) ∧
      after.document.passages.map (·.text) = ["Costs", "Travel", "Rent"] := by
  intro host costs
  have hh : host.Ready := ⟨⟨rfl, rfl⟩, rfl, by decide⟩
  have hid : ("b1", costs) ∈ Snapshot.numbered host.document.passages := by decide +kernel
  have hfirst : Heading.firstEqual? .standard host.document.passages (trimmed "Costs") =
      some costs := by decide +kernel
  have htrimmed : trimmed "Costs" = "Costs" := by decide
  have hexact := (Execution.picksEqual_overlap .standard hh.toAnswers
    (show allBlank (trimmed "Costs").toList = false by decide)).1
  obtain ⟨cause, after, hfamily, hblocks, hedits, hbody⟩ := insertions_fail "now" "" "main" .null hh
    hid hfirst (show '\r' ∉ "Travel".toList by decide) (by decide) (by decide) (by decide +kernel)
  have hedit := hedits _ hexact
  rw [htrimmed] at hedit
  refine ⟨hh, hid, by decide +kernel, _, cause, after, hfamily, ?_, hblocks, hedit, ?_⟩
  · simp [Snapshot.extract, Anchor.ensureHost, runOn_bind, runOn_map, hh.isOpen, hh.paragraphs]
  · rw [Document.passages, Document.paragraphs, hbody]
    decide +kernel

end Redline
