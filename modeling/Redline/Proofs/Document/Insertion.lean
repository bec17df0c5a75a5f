import Mathlib.Data.List.Forall2
import Redline.Proofs.Document.Edits
import Redline.Proofs.Editing

/-!
# Inserting paragraphs

New paragraphs are put in one behind the other, the first beside a paragraph of the document, and
each gets its looks before the next one follows.  All of them end up beside that paragraph, in order.

## Main definitions

* `Look` — one change of how a paragraph looks.
* `Insertion` — a waiting paragraph and its looks.
* `Document.chain` — the effects that put paragraphs in.
-/

namespace Redline

/-! ## Looks -/

/-- One change of how a paragraph looks. -/
inductive Look where
  | style (name : String)
  | color (digits : String)
  | bold (value : Bool)
  | alignment (name : String)
deriving DecidableEq, Repr

namespace Forest

@[simp] theorem handles_formatRuns (change : RunFormat → RunFormat) (f : Forest) :
    (f.formatRuns change).handles = f.handles := by
  induction f with
  | nil => rfl
  | cons e inside rest _ ih => cases e <;> simp [formatRuns, ih, Element.handle?]

@[simp] theorem characters_formatRuns (change : RunFormat → RunFormat) (f : Forest) :
    (f.formatRuns change).characters = f.characters := by
  induction f with
  | nil => rfl
  | cons e inside rest _ ih => cases e <;> simp [formatRuns, characters, ih, Element.characters]

end Forest

namespace Look

/-- The effect that gives a look to a paragraph. -/
def effect (h : Handle) : Look → Effect
  | .style name => .setStyle h name
  | .color digits => .setColor h digits
  | .bold value => .setBold h value
  | .alignment name => .setAlignment h name

/-- A paragraph with a look, if there is such a look. -/
def give (sheet : Stylesheet) (p : Paragraph) : Look → Option Paragraph
  | .style name => (sheet.resolve name).toOption.map fun style => { p with style }
  | .color digits => (Effect.runColor digits.toList).toOption.map fun color =>
    { p with content := p.content.formatRuns fun format => { format with color := some color } }
  | .bold value =>
    some { p with content := p.content.formatRuns fun format => { format with bold := some value } }
  | .alignment name => (Alignment.ofName? name).map fun alignment =>
    { p with alignment := some alignment }

/-- A paragraph with all looks, one after the other. -/
def giveAll (sheet : Stylesheet) (p : Paragraph) (looks : List Look) : Option Paragraph :=
  looks.foldlM (give sheet) p

variable {sheet : Stylesheet}

theorem isEdit_formatRuns (p : Paragraph) (change : RunFormat → RunFormat) :
    p.IsEdit { p with content := p.content.formatRuns change } :=
  ⟨rfl, by simp [Forest.OfKind], by simp⟩

theorem isEdit_give {p q : Paragraph} {look : Look} (h : look.give sheet p = some q) :
    p.IsEdit q := by
  cases look with
  | style name =>
    obtain ⟨style, _, rfl⟩ := Option.map_eq_some_iff.1 h
    exact ⟨rfl, id, .refl _⟩
  | color digits =>
    obtain ⟨color, _, rfl⟩ := Option.map_eq_some_iff.1 h
    exact isEdit_formatRuns p _
  | bold value =>
    obtain rfl := Option.some.inj h
    exact isEdit_formatRuns p _
  | alignment name =>
    obtain ⟨alignment, _, rfl⟩ := Option.map_eq_some_iff.1 h
    exact ⟨rfl, id, .refl _⟩

theorem isEdit_giveAll {p q : Paragraph} {looks : List Look} (h : giveAll sheet p looks = some q) :
    p.IsEdit q := by
  induction looks generalizing p with
  | nil =>
    obtain rfl := Option.some.inj h
    exact .refl p
  | cons look rest ih =>
    obtain ⟨mid, hmid, hrest⟩ := Option.bind_eq_some_iff.1 (h : (look.give sheet p).bind _ = some q)
    exact (isEdit_give hmid).trans (ih hrest)

end Look

namespace Document

variable {d d' : Document} {p : Paragraph}

/-- A look is given to a paragraph of the document exactly if there is such a look. -/
theorem apply_look (hd : d.WellFormed) (hp : p ∈ d.paragraphs) (look : Look) :
    (look.effect p.handle).apply d = (d', none) ↔
      ∃ q, look.give d.styles p = some q ∧ d' = d.put q := by
  have hl : p.handle ∈ d.body.listed := mem_listed_iff.2 ⟨p, hp, rfl⟩
  cases look with
  | style name =>
    cases hs : d.styles.resolve name with
    | error fault => simp [Look.effect, Effect.apply, Effect.applySetStyle, Effect.withValue,
        Effect.fails, Look.give, hs, Except.toOption]
    | ok style =>
      have hput := rewriteAt_eq_put (r := fun p => { p with style }) hd hp rfl
      simp [Look.effect, Effect.apply, Effect.applySetStyle, Effect.withValue, Effect.done,
        Look.give, hs, Except.toOption, restyle_of_listed hd hl, hput, eq_comm]
  | color digits =>
    cases hc : Effect.runColor digits.toList with
    | error fault => simp [Look.effect, Effect.apply, Effect.applySetColor, Effect.withValue,
        Effect.fails, Look.give, hc, Except.toOption]
    | ok color =>
      have hput := rewriteAt_eq_put (r := fun p => { p with
        content := p.content.formatRuns fun format => { format with color := some color } }) hd hp rfl
      simp [Look.effect, Effect.apply, Effect.applySetColor, Effect.withValue, Effect.done,
        Look.give, hc, Except.toOption, modifyInside_of_listed hd hl, hput, eq_comm]
  | bold value =>
    have hput := rewriteAt_eq_put (r := fun p => { p with
      content := p.content.formatRuns fun format => { format with bold := some value } }) hd hp rfl
    simp [Look.effect, Effect.apply, Effect.applySetBold, Effect.done, Look.give,
      modifyInside_of_listed hd hl, hput, eq_comm]
  | alignment name =>
    cases ha : Alignment.ofName? name with
    | none => simp [Look.effect, Effect.apply, Effect.applySetAlignment, Effect.fails, Look.give, ha]
    | some alignment =>
      have hput := rewriteAt_eq_put (r := fun p => { p with alignment := some alignment }) hd hp rfl
      simp [Look.effect, Effect.apply, Effect.applySetAlignment, Effect.done, Look.give, ha,
        restyle_of_listed hd hl, hput, eq_comm]

theorem keeps_look (h : Handle) (look : Look) : Keeps (look.effect h) := by
  intro d hd
  have hformat : ∀ change, (d.modifyInside h (·.formatRuns change)).WellFormed := fun change =>
    hd.modifyInside (by simp) (by simp [Forest.OfKind])
  cases look with
  | style name =>
    simp only [Look.effect, Effect.apply, Effect.applySetStyle]
    cases d.styles.resolve name with
    | error fault => exact hd
    | ok style => exact hd.restyle _
  | color digits =>
    simp only [Look.effect, Effect.apply, Effect.applySetColor]
    cases Effect.runColor digits.toList with
    | error fault => exact hd
    | ok color => exact hformat _
  | bold value => exact hformat _
  | alignment name =>
    simp only [Look.effect, Effect.apply, Effect.applySetAlignment]
    cases Alignment.ofName? name with
    | none => exact hd
    | some alignment => exact hd.restyle _

theorem becomes_looks (hd : d.WellFormed) (hp : p ∈ d.paragraphs) (looks : List Look) :
    d.Becomes (looks.map (·.effect p.handle)) d' ↔
      ∃ q, Look.giveAll d.styles p looks = some q ∧ d' = d.put q := by
  induction looks generalizing d p with
  | nil => simp [Look.giveAll, put_self hd hp]
  | cons look rest ih =>
    have hstep : ∀ q, Look.giveAll d.styles p (look :: rest) = some q ↔
        ∃ mid, look.give d.styles p = some mid ∧ Look.giveAll d.styles mid rest = some q :=
      fun q => Option.bind_eq_some_iff
    simp only [List.map_cons, becomes_cons, apply_look hd hp, hstep]
    constructor
    · rintro ⟨_, ⟨mid, hmid, rfl⟩, hrest⟩
      have he := Look.isEdit_give hmid
      rw [← he.handle, ih (hd.put hp he) (mem_put hp he.handle)] at hrest
      obtain ⟨q, hq, rfl⟩ := hrest
      exact ⟨q, ⟨mid, hmid, hq⟩, put_put (Look.isEdit_giveAll hq).handle⟩
    · rintro ⟨q, ⟨mid, hmid, hq⟩, rfl⟩
      have he := Look.isEdit_give hmid
      refine ⟨_, ⟨mid, hmid, rfl⟩, ?_⟩
      rw [← he.handle, ih (hd.put hp he) (mem_put hp he.handle)]
      exact ⟨q, hq, (put_put (Look.isEdit_giveAll hq).handle).symm⟩

/-! ## Chains -/

end Document

/-- A waiting paragraph, the text that it was made for, and the looks that it is to get. -/
structure Insertion where
  paragraph : Paragraph
  text : String
  looks : List Look

namespace Document

variable {d d' : Document} {p q : Paragraph} {anchor : Handle}

/-- The effects that put waiting paragraphs in, the first one beside the anchor and each other one
behind the one before it. -/
def chain (side : Side) (anchor : Handle) : List Insertion → List Effect
  | [] => []
  | i :: rest =>
    .insertBeside i.paragraph.handle i.text side anchor ::
      (i.looks.map (·.effect i.paragraph.handle) ++ chain .after i.paragraph.handle rest)

theorem keeps_chain {side : Side} {insertions : List Insertion} {e : Effect}
    (he : e ∈ chain side anchor insertions) : Keeps e := by
  induction insertions generalizing side anchor with
  | nil => simp [chain] at he
  | cons i rest ih =>
    rcases List.mem_cons.1 he with rfl | he
    · exact fun d hd => hd.applyInsertBeside _ _ _
    · rcases List.mem_append.1 he with he | he
      · obtain ⟨look, _, rfl⟩ := List.mem_map.1 he
        exact keeps_look _ look
      · exact ih he

/-- A document in which the parts with the given handles do not wait any more. -/
def dropAll (handles : List Handle) (d : Document) : Document :=
  handles.foldl (fun d h => d.dropLoose h) d

theorem dropAll_cons (h : Handle) (handles : List Handle) (d : Document) :
    d.dropAll (h :: handles) = (d.dropLoose h).dropAll handles := rfl

@[simp] theorem nextHandle_dropAll (handles : List Handle) (d : Document) :
    (d.dropAll handles).nextHandle = d.nextHandle := by
  induction handles generalizing d with
  | nil => rfl
  | cons k rest ih => exact ih (d.dropLoose k)

@[simp] theorem styles_dropAll (handles : List Handle) (d : Document) :
    (d.dropAll handles).styles = d.styles := by
  induction handles generalizing d with
  | nil => rfl
  | cons k rest ih => exact ih (d.dropLoose k)

@[simp] theorem body_dropAll (handles : List Handle) (d : Document) :
    (d.dropAll handles).body = d.body := by
  induction handles generalizing d with
  | nil => rfl
  | cons k rest ih => exact ih (d.dropLoose k)

theorem dropAll_rewriteAt (handles : List Handle) (h : Handle) (r : Paragraph → Forest)
    (d : Document) : (d.rewriteAt h r).dropAll handles = (d.dropAll handles).rewriteAt h r := by
  induction handles generalizing d with
  | nil => rfl
  | cons k rest ih => exact ih (d.dropLoose k)

/-- The paragraphs of these insertions wait in the document, each of them once. -/
structure Awaits (d : Document) (insertions : List Insertion) : Prop where
  waiting : ∀ i ∈ insertions, d.IsWaiting i.paragraph
  distinct : (insertions.map (·.paragraph.handle)).Nodup

theorem Awaits.tail {i : Insertion} {rest : List Insertion} (ha : d.Awaits (i :: rest))
    {anchor : Handle} {r : Paragraph → Forest} :
    ((d.dropLoose i.paragraph.handle).rewriteAt anchor r).Awaits rest where
  waiting j hj := by
    have hne : j.paragraph.handle ≠ i.paragraph.handle := fun he =>
      (List.nodup_cons.1 ha.distinct).1 (List.mem_map.2 ⟨j, hj, he⟩)
    exact (ha.waiting j (List.mem_cons_of_mem _ hj)).dropLoose hne
  distinct := (List.nodup_cons.1 ha.distinct).2

theorem mem_inserted (hl : anchor ∈ d.body.listed) (side : Side) (h : Handle) :
    q ∈ ((d.dropLoose h).rewriteAt anchor (·.beside side [q])).paragraphs := by
  obtain ⟨x, hx, hxa⟩ := mem_listed_iff.1 hl
  rw [paragraphs, body_rewriteAt, Forest.paragraphs_rewriteAt]
  refine List.mem_flatMap.2 ⟨x, hx, ?_⟩
  rw [if_pos hxa]
  cases side <;> simp [Paragraph.beside, Forest.join]

section
variable (hd : d.WellFormed) (hl : anchor ∈ d.body.listed) (hp : d.IsWaiting p) (side : Side)
include hd hp

/-- A paragraph that has just been put in may give way to an edit of it. -/
theorem put_inserted (he : q.handle = p.handle) :
    ((d.dropLoose p.handle).rewriteAt anchor (·.beside side [p])).put q =
      (d.dropLoose p.handle).rewriteAt anchor (·.beside side [q]) := by
  have hfresh := hp.notMem_listed hd
  rw [put, he, rewriteAt_rewriteAt (d := d.dropLoose p.handle) (Or.inr hfresh), rewriteAt, rewriteAt]
  congr 1
  refine Forest.rewriteAt_congr fun x hx _ => ?_
  have hne : x.handle ≠ p.handle := fun hh => hfresh (hh ▸ mem_listed_iff.2 ⟨x, hx, rfl⟩)
  cases side <;> simp [Paragraph.beside, Forest.join, Forest.rewriteAt, hne]

include hl

theorem WellFormed.inserted (he : p.IsEdit q) :
    ((d.dropLoose p.handle).rewriteAt anchor (·.beside side [q])).WellFormed := by
  have hwell := hd.applyInsertBeside p.handle anchor side
  rw [show Effect.applyInsertBeside p.handle side anchor d = _ from
    insertBeside_eq hd hl hp "" side] at hwell
  rw [← put_inserted hd hp side he.handle]
  exact hwell.put (mem_inserted hl side _) he

/-- Putting the first paragraph in and giving it its looks. -/
theorem becomes_first (text : String) (looks : List Look) :
    d.Becomes (.insertBeside p.handle text side anchor :: looks.map (·.effect p.handle)) d' ↔
      ∃ q, Look.giveAll d.styles p looks = some q ∧
        d' = (d.dropLoose p.handle).rewriteAt anchor (·.beside side [q]) := by
  simp only [becomes_cons, insertBeside_eq hd hl hp, Prod.mk.injEq, and_true, exists_eq_left',
    becomes_looks (hd.inserted hl hp side (.refl p)) (mem_inserted hl side _)]
  refine exists_congr fun q => and_congr_right fun hq => ?_
  rw [put_inserted hd hp side (Look.isEdit_giveAll hq).handle]

end

/-- The paragraphs that insertions become. -/
def Dressed (sheet : Stylesheet) (insertions : List Insertion) (news : List Paragraph) : Prop :=
  List.Forall₂ (fun i q => Look.giveAll sheet i.paragraph i.looks = some q) insertions news

theorem Dressed.map_handle {sheet : Stylesheet} {insertions : List Insertion}
    {news : List Paragraph} (h : Dressed sheet insertions news) :
    news.map (·.handle) = insertions.map (·.paragraph.handle) := by
  induction h with
  | nil => rfl
  | cons hq _ ih => simp [ih, (Look.isEdit_giveAll hq).handle]

/-- A chain puts its paragraphs beside the anchor, all of them with their looks and in order. -/
theorem becomes_chain {side : Side} {insertions : List Insertion} (hd : d.WellFormed)
    (hl : anchor ∈ d.body.listed) (ha : d.Awaits insertions) :
    d.Becomes (chain side anchor insertions) d' ↔
      ∃ news, Dressed d.styles insertions news ∧
        d' = (d.dropAll (insertions.map (·.paragraph.handle))).rewriteAt anchor
          (·.beside side news) := by
  induction insertions generalizing d anchor side with
  | nil =>
    have hself : d.rewriteAt anchor Paragraph.tree = d := by
      have : d.body.rewriteAt anchor Paragraph.tree = d.body := by
        simp [Forest.rewriteAt, Forest.rewrite_self]
      rw [rewriteAt, this]
    simp [chain, dropAll, hself, Dressed]
  | cons i rest ih =>
    have hwait := ha.waiting i List.mem_cons_self
    have hfresh := hwait.notMem_listed hd
    have hstep : ∀ q, Look.giveAll d.styles i.paragraph i.looks = some q →
        (((d.dropLoose i.paragraph.handle).rewriteAt anchor (·.beside side [q])).Becomes
            (chain .after i.paragraph.handle rest) d' ↔
          ∃ news, Dressed d.styles rest news ∧
            d' = (d.dropAll ((i :: rest).map (·.paragraph.handle))).rewriteAt anchor
              (·.beside side (q :: news))) := by
      intro q hq
      have he := Look.isEdit_giveAll hq
      have hmem := mem_inserted (q := q) hl side i.paragraph.handle
      rw [ih (hd.inserted hl hwait side he) (mem_listed_iff.2 ⟨q, hmem, he.handle⟩) ha.tail]
      refine exists_congr fun news => and_congr_right fun _ => ?_
      have hbody : ((d.dropLoose i.paragraph.handle).dropAll
          (rest.map (·.paragraph.handle))).body = d.body := body_dropAll _ _
      rw [dropAll_rewriteAt, rewriteAt_rewriteAt (Or.inr (hbody ▸ hfresh)), List.map_cons,
        dropAll_cons]
      have hbeside : ∀ x ∈ d.body.paragraphs, x.handle = anchor →
          (x.beside side [q]).rewriteAt i.paragraph.handle (·.beside .after news) =
            x.beside side (q :: news) := by
        intro x hx _
        rw [← he.handle]
        refine Paragraph.rewriteAt_beside news fun hh => hfresh ?_
        exact mem_listed_iff.2 ⟨x, hx, hh.trans he.handle⟩
      rw [rewriteAt, rewriteAt, hbody, Forest.rewriteAt_congr hbeside]
    rw [chain, ← List.cons_append, becomes_append]
    simp only [becomes_first hd hl hwait, Dressed, List.forall₂_cons_left_iff]
    constructor
    · rintro ⟨_, ⟨q, hq, rfl⟩, hrest⟩
      obtain ⟨news, hnews, rfl⟩ := (hstep q hq).1 hrest
      exact ⟨q :: news, ⟨q, news, hq, hnews, rfl⟩, rfl⟩
    · rintro ⟨_, ⟨q, news, hq, hnews, rfl⟩, rfl⟩
      exact ⟨_, ⟨q, hq, rfl⟩, (hstep q hq).2 ⟨news, hnews, rfl⟩⟩

end Document

end Redline
