import Redline.Proofs.Context.Relevance
import Redline.Proofs.Snapshot.Partition

/-!
# The context of a prompt and the snapshot

A context and a snapshot are made of the same paragraphs in two passes that know nothing of each
other.  They number the headings alike and cut the document at the same places: what a context says
of a section can be read off the blocks of the snapshot.

## Main definitions

* `Snapshot.headings`, `Snapshot.paragraphTexts`, `Snapshot.sectionTexts` — what a reader of a
  snapshot finds in its blocks.
* `Context.Tells` — an entry of a context shows a section of a snapshot.
* `Context.Agrees` — a context says of a document what a snapshot of it says.

## Main results

* `Context.build_agrees` — the context and the snapshot of one document agree.
-/

namespace Redline

namespace Snapshot

open Redline.Context

/-! ## Reading a snapshot -/

/-- A block as an entry in a list of headings. -/
def Block.heading? (b : Block) : Option HeadingEntry :=
  match b.type, b.text, b.level with
  | .str "heading", .str text, .int level => some ⟨text, level⟩
  | _, _, _ => none

/-- The text of a block that is a paragraph. -/
def Block.paragraph? (b : Block) : Option String :=
  match b.type, b.text with
  | .str "paragraph", .str text => some text
  | _, _ => none

/-- The headings of a snapshot in order, under the ids of their blocks. -/
def headings (s : Snapshot) : List (String × HeadingEntry) :=
  s.blocks.filterMap fun e => e.2.heading?.map fun h => (e.1, h)

/-- The texts of the paragraphs of a snapshot, in order. -/
def paragraphTexts (s : Snapshot) : List String := s.blocks.filterMap fun e => e.2.paragraph?

/-- The texts of the paragraphs that a section lists. -/
def sectionTexts (s : Snapshot) (x : Section) : List String :=
  x.blocks.filterMap fun id => (s.block? id).bind Block.paragraph?

/-- The entry for a prompt that asks for another order: all paragraphs of a snapshot under its last
heading. -/
def reordered (prompt : String) (s : Snapshot) : List RelevantSection :=
  if asksForOrder prompt = true ∧ s.paragraphTexts ≠ [] then
    match s.headings.getLast? with
    | some (_, h) => [⟨h.text, h.level, s.paragraphTexts, s.headings.length - 1⟩]
    | none => [⟨"Document Content", 1, s.paragraphTexts, 0⟩]
  else []

variable {rules : Rules} {passages : List Passage} {labels group : List (String × Piece)}
  {e : String × Piece}

/-! ## The blocks of pieces -/

/-- A piece as an entry in a list of headings. -/
def Piece.heading? (p : Piece) : Option HeadingEntry := p.level.map fun level => ⟨p.text, level⟩

/-- The text of a piece that is no heading. -/
def Piece.paragraph? (p : Piece) : Option String := if p.isHeading then none else some p.text

theorem Piece.heading?_block (id : String) (p : Piece) : (p.block id).heading? = p.heading? := by
  cases hlevel : p.level <;> simp [Piece.block, Piece.heading?, Block.heading?, hlevel]

theorem Piece.paragraph?_block (id : String) (p : Piece) :
    (p.block id).paragraph? = p.paragraph? := by
  cases hlevel : p.level <;>
    simp [Piece.block, Piece.paragraph?, Piece.isHeading, Block.paragraph?, hlevel]

/-- A piece that is a heading, under its id. -/
def titled? (e : String × Piece) : Option (String × HeadingEntry) :=
  e.2.heading?.map fun h => (e.1, h)

theorem headings_ofPieces (epoch : String) (pieces : List Piece) :
    (ofPieces epoch pieces).headings = (labelled pieces).filterMap titled? := by
  rw [headings, ofPieces, List.filterMap_map]
  refine List.filterMap_congr fun e _ => ?_
  rw [Function.comp_apply, Piece.heading?_block, titled?]

theorem paragraphTexts_ofPieces (epoch : String) (pieces : List Piece) :
    (ofPieces epoch pieces).paragraphTexts = pieces.filterMap Piece.paragraph? := by
  have hpieces : pieces = (labelled pieces).map (·.2) := by
    refine List.ext_getElem? fun k => ?_
    rw [List.getElem?_map, getElem?_labelled, Option.map_map]
    exact (congrFun Option.map_id _).symm
  conv_rhs => rw [hpieces, List.filterMap_map]
  rw [paragraphTexts, ofPieces, List.filterMap_map]
  exact List.filterMap_congr fun e _ => Piece.paragraph?_block e.1 e.2

/-- A block is a heading or a paragraph. -/
theorem blocks_eq_nil_iff (rules : Rules) (epoch : String) (passages : List Passage) :
    (ofPassages rules epoch passages).blocks = [] ↔
      (ofPassages rules epoch passages).paragraphTexts = [] ∧
        (ofPassages rules epoch passages).headings = [] := by
  constructor
  · intro hnil
    rw [paragraphTexts, headings, hnil]
    exact ⟨rfl, rfl⟩
  · rintro ⟨htexts, hheadings⟩
    rw [ofPassages_eq_ofPieces] at htexts hheadings ⊢
    rw [ofPieces, List.map_eq_nil_iff, List.eq_nil_iff_forall_not_mem]
    intro e he
    have hmem := List.mem_map_of_mem (f := fun e => (e.1, e.2.block e.1)) he
    have htext := List.filterMap_eq_nil_iff.1 htexts _ hmem
    have hheading := List.filterMap_eq_nil_iff.1 hheadings _ hmem
    rw [Piece.paragraph?_block, Piece.paragraph?] at htext
    rw [Piece.heading?_block, Piece.heading?] at hheading
    cases hlevel : e.2.level <;> simp [Piece.isHeading, hlevel] at htext hheading

/-! ## Groups and chapters -/

/-- The heading in front of a group, with the texts behind it. -/
def headed? : List (String × Piece) → Option ((String × HeadingEntry) × List String)
  | [] => none
  | e :: rest => (titled? e).map fun h => (h, rest.map fun e => e.2.text)

/-- A heading with the texts behind it, as a chapter. -/
def toChapter (x : (String × HeadingEntry) × List String) : Chapter :=
  ⟨x.1.2.text, x.1.2.level, x.2⟩

theorem headed?_concat (hg : group ≠ []) :
    headed? (group ++ [e]) = (headed? group).map fun x => (x.1, x.2 ++ [e.2.text]) := by
  obtain ⟨first, rest, rfl⟩ := List.exists_cons_of_ne_nil hg
  simp [headed?, Function.comp_def]

theorem titled?_of_not_heading (he : e.2.isHeading = false) : titled? e = none := by
  have hlevel : e.2.level = none := by simpa [Piece.isHeading] using he
  simp [titled?, Piece.heading?, hlevel]

theorem isSome_titled? (he : e.2.isHeading = true) : (titled? e).isSome = true := by
  simpa [titled?, Piece.heading?, Piece.isHeading] using he

/-- The headings of a group are the one in front of it, if it has one. -/
theorem filterMap_titled?_group (hg : group ∈ groups labels) :
    group.filterMap titled? = ((headed? group).map (·.1)).toList := by
  obtain ⟨e, rest, rfl⟩ := List.exists_cons_of_ne_nil (List.ne_nil_of_mem_splitBy hg)
  have hrest : rest.filterMap titled? = [] :=
    List.filterMap_eq_nil_iff.2 fun x hx => titled?_of_not_heading (isHeading_of_mem_tail hg hx)
  rw [List.filterMap_cons, hrest, headed?]
  cases titled? e <;> rfl

/-- The headings are those in front of the groups. -/
theorem headings_groups (labels : List (String × Piece)) :
    labels.filterMap titled? = ((groups labels).filterMap headed?).map (·.1) := by
  have hflat : (groups labels).flatten = labels := List.flatten_splitBy _ _
  have hall : ∀ gs : List (List (String × Piece)), (∀ g ∈ gs, g ∈ groups labels) →
      gs.flatten.filterMap titled? = (gs.filterMap headed?).map (·.1) := by
    intro gs hgs
    induction gs with
    | nil => rfl
    | cons g rest ih =>
      obtain ⟨hg, hrest⟩ := List.forall_mem_cons.1 hgs
      rw [List.flatten_cons, List.filterMap_append, filterMap_titled?_group hg, ih hrest,
        List.filterMap_cons]
      cases headed? g <;> rfl
  rw [← hall _ fun g hg => hg, hflat]

/-- Only the first group can do without a heading. -/
theorem eq_nil_of_headed?_eq_none {first : List (List (String × Piece))}
    (hg : groups labels = first ++ [group]) (hnone : headed? group = none) : first = [] := by
  by_contra hne
  obtain ⟨position, hposition⟩ := Nat.exists_eq_succ_of_ne_zero (mt List.length_eq_zero_iff.1 hne)
  have hlast : (groups labels)[position + 1]? = some group := by
    rw [hg, ← Nat.succ_eq_add_one, ← hposition, List.getElem?_concat_length]
  obtain ⟨e, rest, rfl, he⟩ := head_of_groups_succ hlast
  have hsome := isSome_titled? he
  rw [headed?, Option.map_eq_none_iff] at hnone
  rw [hnone] at hsome
  cases hsome

theorem addText_concat (text : String) (cs : List Chapter) (c : Chapter) :
    addText text (cs ++ [c]) = cs ++ [{ c with texts := c.texts ++ [text] }] := by
  induction cs with
  | nil => rfl
  | cons first rest ih => rw [List.cons_append, addText_cons _ _ (by simp), ih, List.cons_append]

/-- The chapters that the groups with a heading make. -/
def chaptersIn (labels : List (String × Piece)) : List Chapter :=
  ((groups labels).filterMap headed?).map toChapter

theorem chaptersIn_concat_heading {level : Int} (he : e.2.level = some level) :
    chaptersIn (labels ++ [e]) = chaptersIn labels ++ [⟨e.2.text, level, []⟩] := by
  have hheading : e.2.isHeading = true := by simp [Piece.isHeading, he]
  rw [chaptersIn, groups_concat_heading hheading, List.filterMap_append, List.map_append]
  simp [chaptersIn, headed?, titled?, Piece.heading?, he, toChapter]

/-- What is no heading goes to the last chapter, or to the introduction, which is no chapter. -/
theorem chaptersIn_concat_paragraph (he : e.2.isHeading = false) :
    chaptersIn (labels ++ [e]) = addText e.2.text (chaptersIn labels) := by
  rw [chaptersIn, chaptersIn]
  rcases List.eq_nil_or_concat' (groups labels) with hnone | ⟨first, last, hg⟩
  · obtain rfl : labels = [] := List.splitBy_eq_nil.1 hnone
    have hone : groups [e] = [[e]] := rfl
    rw [hnone, List.nil_append, hone, List.filterMap_cons, headed?, titled?_of_not_heading he]
    rfl
  · have hlast : last ≠ [] := List.ne_nil_of_mem_splitBy (show last ∈ groups labels by simp [hg])
    rw [groups_concat_paragraph he hg, hg]
    simp only [List.filterMap_append, List.filterMap_cons, List.filterMap_nil, headed?_concat hlast]
    cases hhead : headed? last with
    | none =>
      obtain rfl := eq_nil_of_headed?_eq_none hg hhead
      rfl
    | some x =>
      simp only [Option.map_some, List.map_append, List.map_cons, List.map_nil, addText_concat]
      rfl

/-- The groups with a heading are the chapters of the paragraphs. -/
theorem chaptersIn_labelled (rules : Rules) (passages : List Passage) :
    chaptersIn (labelled (passages.map (Piece.ofPassage rules))) = chaptersOf rules passages := by
  induction passages using List.reverseRecOn with
  | nil => rfl
  | append_singleton rest p ih =>
    have hlabelled : labelled ((rest ++ [p]).map (Piece.ofPassage rules)) =
        labelled (rest.map (Piece.ofPassage rules)) ++
          [(blockId rest.length, Piece.ofPassage rules p)] := by
      simp [labelled]
    rw [hlabelled]
    cases hlevel : rules.headingLevel? p.style with
    | some level => rw [chaptersIn_concat_heading hlevel, ih, chaptersOf_concat_heading hlevel]; rfl
    | none =>
      have hplain : (blockId rest.length, Piece.ofPassage rules p).2.isHeading = false := by
        simp [Piece.isHeading, Piece.ofPassage, hlevel]
      rw [chaptersIn_concat_paragraph hplain, ih, chaptersOf_concat_body hlevel]
      rfl

/-! ## Sections -/

/-- A chapter is the group of its heading. -/
theorem exists_group {i : Nat} {c : Chapter} (epoch : String)
    (hc : (chapters rules passages)[i]? = some c) :
    ∃ (position : Nat) (e : String × Piece) (rest : List (String × Piece)),
      (groups (labelled ((candidates passages).map (Piece.ofPassage rules))))[position]? =
        some (e :: rest) ∧
      (ofPassages rules epoch passages).headings[i]? = some (e.1, ⟨c.heading, c.level⟩) ∧
      e.2.level = some c.level ∧ c.texts = rest.map fun e => e.2.text := by
  rw [chapters, ← chaptersIn_labelled, chaptersIn, List.getElem?_map] at hc
  obtain ⟨x, hx, rfl⟩ := Option.map_eq_some_iff.1 hc
  obtain ⟨group, hgroup, hhead⟩ := List.mem_filterMap.1 (List.mem_of_getElem? hx)
  obtain ⟨e, rest, rfl⟩ := List.exists_cons_of_ne_nil (List.ne_nil_of_mem_splitBy hgroup)
  obtain ⟨position, hposition⟩ := List.mem_iff_getElem?.1 hgroup
  obtain ⟨h, hentry, rfl⟩ := Option.map_eq_some_iff.1 hhead
  obtain ⟨heading, hheading, rfl⟩ := Option.map_eq_some_iff.1 hentry
  obtain ⟨level, hlevel, rfl⟩ := Option.map_eq_some_iff.1 hheading
  refine ⟨position, e, rest, hposition, ?_, hlevel, rfl⟩
  rw [ofPassages_eq_ofPieces, headings_ofPieces, headings_groups, List.getElem?_map, hx]
  rfl

/-- The section of a group with a heading lists the texts behind it. -/
theorem sectionTexts_sectionOf (epoch : String) (position : Nat) {pieces : List Piece} {level : Int}
    {rest : List (String × Piece)} (hg : e :: rest ∈ groups (labelled pieces))
    (hlevel : e.2.level = some level) :
    (ofPieces epoch pieces).sectionTexts (sectionOf position (e :: rest)) =
      rest.map fun e => e.2.text := by
  have hread : ∀ x ∈ e :: rest, ((ofPieces epoch pieces).block? (.str x.1)).bind Block.paragraph? =
      x.2.paragraph? := by
    intro x hx
    rw [block?_ofPieces epoch (mem_of_mem_groups hg hx), Option.bind_some, Piece.paragraph?_block]
  have hfirst : e.2.paragraph? = none := by simp [Piece.paragraph?, Piece.isHeading, hlevel]
  have hrest : ∀ x ∈ rest, ((ofPieces epoch pieces).block? (.str x.1)).bind Block.paragraph? =
      some x.2.text := by
    intro x hx
    have hplain : x.2.isHeading = false := isHeading_of_mem_tail hg hx
    rw [hread x (List.mem_cons_of_mem _ hx), Piece.paragraph?, hplain]
    rfl
  rw [sectionTexts, sectionOf_heading hlevel, List.filterMap_cons,
    hread e List.mem_cons_self, hfirst, List.filterMap_map]
  exact (List.filterMap_congr hrest).trans (congrFun List.filterMap_eq_map' rest)

end Snapshot

namespace Context

open Snapshot

variable {rules : Rules} {prompt : String} {passages : List Passage} {host : Host}

/-- The first characters of a text. -/
def firstChars (n : Nat) (text : String) : String := String.ofList (text.toList.take n)

/-- An entry of a context shows a section of a snapshot: it bears the heading with the position that
the entry names, and the first paragraphs of the section that this heading opens, each cut.  The
section has a paragraph. -/
def Tells (rules : Rules) (s : Snapshot) (e : RelevantSection) : Prop :=
  ∃ (id : String) (x : Snapshot.Section),
    s.headings[e.headingIndex]? = some (id, ⟨e.heading, e.level⟩) ∧
    x ∈ s.sections ∧ x.blocks.head? = some (.str id) ∧ s.sectionTexts x ≠ [] ∧
    e.paragraphs = ((s.sectionTexts x).take rules.contextParagraphs.toNat).map
      (firstChars rules.contextParagraphChars.toNat)

/-- A context says of a document what a snapshot of it says. -/
structure Agrees (rules : Rules) (prompt : String) (s : Snapshot) (c : Context) : Prop where
  headings : c.headings = s.headings.map (·.2)
  hasContent : c.hasContent = true ↔ s.blocks ≠ []
  /-- The sections come in document order, and none comes twice; what a prompt that asks for another
  order adds to them is the last entry. -/
  relevant : ∃ shown, c.relevant = shown ++ s.reordered prompt ∧
    shown.Pairwise (fun d e => d.headingIndex < e.headingIndex) ∧ ∀ e ∈ shown, Tells rules s e
  summary : c.summary = firstChars rules.contextSummaryChars.toNat
    (" ".intercalate (s.paragraphTexts.take rules.contextParagraphs.toNat))

theorem upTo_of_nonneg {α : Type} {n : Int} (h : 0 ≤ n) (list : List α) :
    upTo n list = list.take n.toNat := if_neg (by omega)

theorem cut_of_nonneg {chars : Int} (h : 0 ≤ chars) : cut chars = firstChars chars.toNat := by
  funext text
  rw [cut, upTo_of_nonneg h, firstChars]

/-! ## The parts of a context -/

theorem headings_ofPassages (rules : Rules) (prompt epoch : String) (passages : List Passage) :
    (ofPassages rules prompt passages).headings =
      (Snapshot.ofPassages rules epoch passages).headings.map (·.2) := by
  rw [ofPassages, outline_eq, ofPassages_eq_ofPieces, headings_ofPieces, headings_groups, chapters,
    ← chaptersIn_labelled, chaptersIn, List.map_map, List.map_map]
  rfl

theorem paragraphs_outline (rules : Rules) (epoch : String) (passages : List Passage) :
    (Outline.ofPassages rules passages).paragraphs =
      (Snapshot.ofPassages rules epoch passages).paragraphTexts := by
  rw [outline_eq, ofPassages_eq_ofPieces, paragraphTexts_ofPieces, List.filterMap_map]
  generalize candidates passages = shown
  induction shown with
  | nil => rfl
  | cons p rest ih =>
    cases hlevel : rules.headingLevel? p.style <;>
      simpa [isBody, hlevel, Piece.paragraph?, Piece.ofPassage, Piece.isHeading] using ih

/-- An entry of a context shows the section of its heading. -/
theorem tells_of_mem (epoch : String) (hcount : 0 ≤ rules.contextParagraphs)
    (hchars : 0 ≤ rules.contextParagraphChars) {e : RelevantSection}
    (he : e ∈ relevantSections rules prompt (Outline.ofPassages rules passages)) :
    Tells rules (Snapshot.ofPassages rules epoch passages) e := by
  obtain ⟨i, c, hc, hne, -, rfl⟩ := mem_relevantSections.1 he
  obtain ⟨position, x, rest, hgroup, hheading, hlevel, htexts⟩ := exists_group epoch hc
  have hmem := List.mem_of_getElem? hgroup
  have hsection := sectionTexts_sectionOf epoch position hmem hlevel
  rw [ofPassages_eq_ofPieces] at hheading ⊢
  refine ⟨x.1, sectionOf position (x :: rest), hheading, ?_, ?_, ?_, ?_⟩
  · refine List.mem_of_getElem? (i := position) ?_
    rw [ofPieces, List.getElem?_mapIdx, hgroup]
    rfl
  · rw [sectionOf_heading hlevel]
    rfl
  · rw [hsection, ← htexts]
    exact hne
  · rw [hsection, ← htexts, upTo_of_nonneg hcount, cut_of_nonneg hchars, List.map_take]

/-- The sections of a context come in document order, and none comes twice. -/
theorem pairwise_relevantSections (rules : Rules) (prompt : String) (passages : List Passage) :
    (relevantSections rules prompt (Outline.ofPassages rules passages)).Pairwise
      fun d e => d.headingIndex < e.headingIndex := by
  have hall : (Outline.ofPassages rules passages).sections.Pairwise
      fun d e => d.headingIndex < e.headingIndex := by
    rw [outline_eq, List.pairwise_iff_getElem]
    intro i j hi hj hlt
    simpa [Chapter.shown] using hlt
  rw [relevantSections, List.pairwise_map]
  exact hall.filter _

/-- What a prompt that asks for another order adds. -/
theorem wholeSection_eq (rules : Rules) (prompt epoch : String) (passages : List Passage) :
    wholeSection prompt (Outline.ofPassages rules passages) =
      (Snapshot.ofPassages rules epoch passages).reordered prompt := by
  have htexts := paragraphs_outline rules epoch passages
  have hheadings := headings_ofPassages rules prompt epoch passages
  rw [wholeSection, reordered, htexts]
  simp only [Bool.and_eq_true, Bool.not_eq_true', List.isEmpty_eq_false_iff]
  rw [ofPassages, outline_eq] at hheadings
  rw [outline_eq]
  rcases List.eq_nil_or_concat' (chapters rules passages) with hnone | ⟨front, c, hlast⟩
  · rw [hnone, List.map_nil, eq_comm, List.map_eq_nil_iff] at hheadings
    rw [hnone, hheadings]
    rfl
  · -- The last chapter has the last heading.
    rw [hlast, List.map_append, List.map_singleton, eq_comm, List.map_eq_append_iff] at hheadings
    obtain ⟨others, final, hsplit, hothers, hfinal⟩ := hheadings
    obtain ⟨h, rest, rfl, hh, hrest⟩ := List.map_eq_cons_iff.1 hfinal
    obtain rfl := List.map_eq_nil_iff.1 hrest
    have hlength : others.length = front.length := by
      rw [← List.length_map (·.2), hothers, List.length_map]
    rw [hlast, hsplit, List.mapIdx_concat, List.getLast?_concat, List.getLast?_concat]
    simp [hh, hlength, Chapter.shown]

/-- The context of a prompt says of a document what the snapshot says that is taken of it. -/
theorem build_agrees (ha : host.Answers) (rules : Rules) (prompt epoch : String)
    (hcount : 0 ≤ rules.contextParagraphs) (hchars : 0 ≤ rules.contextParagraphChars)
    (hsummary : 0 ≤ rules.contextSummaryChars) :
    ∃ s context, (Snapshot.extract rules epoch).runOn host = (.ok s, host) ∧
      (build rules prompt).runOn host = (.ok context, host) ∧
      Agrees rules prompt s context := by
  have hextract := extract_run rules epoch ha
  rw [← ofPassages_eq_ofPieces] at hextract
  refine ⟨_, _, hextract, runOn_build ha rules prompt, ?_⟩
  have htexts := paragraphs_outline rules epoch host.document.passages
  have hheadings := headings_ofPassages rules prompt epoch host.document.passages
  constructor
  case headings => exact hheadings
  case hasContent =>
    have hempty : (ofPassages rules prompt host.document.passages).headings = [] ↔
        (Snapshot.ofPassages rules epoch host.document.passages).headings = [] := by
      rw [hheadings, List.map_eq_nil_iff]
    rw [Ne, blocks_eq_nil_iff, ← htexts, ← hempty, ofPassages]
    simp [imp_iff_not_or]
  case relevant =>
    refine ⟨_, ?_, pairwise_relevantSections rules prompt host.document.passages, fun e he =>
      tells_of_mem epoch hcount hchars he⟩
    rw [← wholeSection_eq, ofPassages]
  case summary =>
    rw [ofPassages, htexts, upTo_of_nonneg hcount, upTo_of_nonneg hsummary, firstChars]

/-- A page with an introduction, a heading without a paragraph, and a section of two paragraphs. -/
def threeParts : Document where
  body := .cons (.paragraph ⟨0⟩ "Normal" none) (.runOf "Read this first.".toList)
    (.cons (.paragraph ⟨1⟩ "Heading 1" none) (.runOf "Aims".toList)
      (.cons (.paragraph ⟨2⟩ "Heading 2" none) (.runOf "Costs".toList)
        (.cons (.paragraph ⟨3⟩ "Normal" none) (.runOf " The budget is small. ".toList)
          (.single (.paragraph ⟨4⟩ "Normal" none) (.runOf "We ship on Monday.".toList)))))
  nextHandle := 5

theorem build_agrees_rearranged :
    let host : Host := { document := threeParts }
    let prompt := "Rearrange the budget"
    host.Answers ∧ (0 : Int) ≤ Rules.standard.contextParagraphs ∧
      (0 : Int) ≤ Rules.standard.contextParagraphChars ∧
      (0 : Int) ≤ Rules.standard.contextSummaryChars ∧
      ∃ s context, (Snapshot.extract .standard "one").runOn host = (.ok s, host) ∧
        (build .standard prompt).runOn host = (.ok context, host) ∧
        Agrees .standard prompt s context ∧
        context.relevant = [
          ⟨"Costs", 2, ["The budget is small.", "We ship on Monday."], 1⟩,
          ⟨"Costs", 2, ["Read this first.", "The budget is small.", "We ship on Monday."], 1⟩] := by
  intro host prompt
  have hanswers : host.Answers := ⟨rfl, rfl⟩
  obtain ⟨s, context, hextract, hbuild, hagrees⟩ :=
    build_agrees hanswers .standard prompt "one" (by decide) (by decide) (by decide)
  refine ⟨hanswers, by decide, by decide, by decide, s, context, hextract, hbuild, hagrees, ?_⟩
  rw [runOn_build hanswers] at hbuild
  obtain rfl := Except.ok.inj (Prod.mk.inj hbuild).1
  decide +kernel

end Context

end Redline
