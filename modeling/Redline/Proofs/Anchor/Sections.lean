import Mathlib.Data.List.Infix
import Mathlib.Data.List.Lattice
import Mathlib.Tactic.Set
import Redline.Proofs.Anchor.Range

/-!
# Sections

The range of a heading is its section: the paragraphs from the heading up to the next one of its
level or a higher one.  What ends a section also ends those that start inside it, so that sections
lie apart or inside each other, whatever the levels of a document are.

## Main definitions

* `Anchor.SectionEnds` — the position where a section ends.
-/

namespace Redline

variable {rules : Rules} {passages : List Passage} {p q : Passage} {level other : Int}
  {start stop first last : Nat}

namespace Anchor

/-- The section of a heading ends at a position: at that of the next heading of its level or a
higher one, or at the end of the document. -/
structure SectionEnds (rules : Rules) (passages : List Passage) (p : Passage) (level : Int)
    (stop : Nat) : Prop where
  lt_stop : p.index < stop
  le_length : stop ≤ passages.length
  deeper : ∀ q ∈ passages, p.index < q.index → q.index < stop →
    ∀ other, rules.headingLevel? q.style = some other → level < other
  ended : stop = passages.length ∨
    ∃ q ∈ passages, q.index = stop ∧
      ∃ other, rules.headingLevel? q.style = some other ∧ other ≤ level

/-! ## The scan -/

/-- The scan passes what is no heading and deeper headings. -/
theorem headingLevel?_of_mem_sectionBody (h : q ∈ sectionBody rules level passages)
    (hq : rules.headingLevel? q.style = some other) : level < other := by
  have hpassed := List.mem_takeWhile_imp h
  simpa only [hq, decide_eq_true_eq] using hpassed

/-- The scan stops at a heading of the level or a higher one. -/
theorem headingLevel?_of_stopped
    (h : passages[(sectionBody rules level passages).length]? = some q) :
    ∃ other, rules.headingLevel? q.style = some other ∧ other ≤ level := by
  induction passages with
  | nil => cases h
  | cons x rest ih =>
    rw [sectionBody, List.takeWhile_cons] at h
    cases hx : rules.headingLevel? x.style with
    | none =>
      simp only [hx, if_true, List.length_cons, List.getElem?_cons_succ] at h
      exact ih h
    | some other =>
      simp only [hx, decide_eq_true_eq] at h
      by_cases hdeep : level < other
      · rw [if_pos hdeep, List.length_cons, List.getElem?_cons_succ] at h
        exact ih h
      · rw [if_neg hdeep] at h
        obtain rfl : x = q := Option.some.inj h
        exact ⟨other, hx, not_lt.1 hdeep⟩

/-! ## Two sections -/

/-- What ends a section also ends those that start inside it. -/
theorem SectionEnds.le_of_lt (hp : SectionEnds rules passages p level first)
    (hq : SectionEnds rules passages q other last) (hlevel : level ≤ other)
    (hlt : q.index < first) : last ≤ first := by
  by_contra hc
  obtain hend | ⟨r, hr, hindex, deep, hdeep, hle⟩ := hp.ended
  · have := hq.le_length
    omega
  · have := hq.deeper r hr (by omega) (by omega) deep hdeep
    omega

end Anchor

/-! ## Parts of a row -/

section
variable {α : Type} {l : List α}

/-- A part of a row inside another one. -/
theorem take_drop_isInfix (hfirst : first ≤ start) (hlast : stop ≤ last) :
    (l.drop start).take (stop - start) <:+: (l.drop first).take (last - first) := by
  have hinner : (l.drop start).take (stop - start) =
      (((l.drop first).take (last - first)).drop (start - first)).take (stop - start) := by
    rw [List.drop_take, List.drop_drop, List.take_take,
      show first + (start - first) = start by omega]
    congr 1
    omega
  rw [hinner]
  exact (List.take_prefix _ _).isInfix.trans (List.drop_suffix _ _).isInfix

/-- Parts of a row that do not overlap have nothing in common. -/
theorem disjoint_take_drop_of_le (hn : l.Nodup) (h : last ≤ start) :
    ((l.drop first).take (last - first)).Disjoint ((l.drop start).take (stop - start)) := by
  intro x hx hy
  rw [← List.drop_take] at hx
  exact List.disjoint_take_drop hn h (List.mem_of_mem_drop hx) (List.mem_of_mem_take hy)

end

/-! ## The sections of a document -/

namespace Document

variable {d : Document}

/-- The section of a heading is a part of the document that ends as it should. -/
theorem exists_sectionEnds (hp : p ∈ d.passages)
    (hlevel : rules.headingLevel? p.style = some level) :
    ∃ stop, Anchor.SectionEnds rules d.passages p level stop ∧
      Anchor.headingSection rules d.passages p =
        (d.body.listed.drop p.index).take (stop - p.index) := by
  have hbody := Anchor.sectionBody_isPrefix rules level (d.passages.drop (p.index + 1))
  have hlt : p.index < d.passages.length := (List.getElem?_eq_some_iff.1 (getElem?_index hp)).1
  have hlength := hbody.length_le
  rw [List.length_drop] at hlength
  set body := Anchor.sectionBody rules level (d.passages.drop (p.index + 1)) with hscan
  refine ⟨p.index + 1 + body.length, ⟨by omega, by omega, ?_, ?_⟩, ?_⟩
  · intro q hq hafter hbefore other hother
    -- The paragraph stands among those that the scan has passed.
    have hoffset : q.index - (p.index + 1) < body.length := by omega
    have hmem : q ∈ body := by
      have hget := (List.prefix_iff_getElem?.1 hbody) _ hoffset
      rw [List.getElem?_drop, show p.index + 1 + (q.index - (p.index + 1)) = q.index by omega,
        getElem?_index hq] at hget
      rw [Option.some.inj hget]
      exact List.getElem_mem hoffset
    exact Anchor.headingLevel?_of_mem_sectionBody hmem hother
  · by_cases hend : p.index + 1 + body.length = d.passages.length
    · exact .inl hend
    · right
      have hstop : p.index + 1 + body.length < d.passages.length := by omega
      have hget := List.getElem?_eq_getElem hstop
      have hstopped := hget
      rw [← List.getElem?_drop] at hstopped
      exact ⟨_, List.getElem_mem hstop, index_of_getElem? hget,
        Anchor.headingLevel?_of_stopped hstopped⟩
  · simp only [Anchor.headingSection, hlevel, ← hscan]
    rw [← slice_listed hp hbody, Forest.slice]
    congr 1
    omega

/-- A heading stands in a section that starts in front of it if it stands before the section's
end. -/
theorem handle_mem_take_drop (hn : d.body.listed.Nodup) (hq : q ∈ d.passages)
    (hfirst : first ≤ q.index) :
    q.handle ∈ (d.body.listed.drop first).take (last - first) ↔ q.index < last := by
  have hget := getElem?_listed (getElem?_index hq)
  constructor
  · intro hmem
    by_contra hc
    have hself : q.handle ∈ (d.body.listed.drop q.index).take (q.index + 1 - q.index) := by
      refine List.mem_of_getElem? (i := 0) ?_
      rw [List.getElem?_take_of_lt (by omega), List.getElem?_drop, Nat.add_zero, hget]
    exact disjoint_take_drop_of_le hn (by omega) hmem hself
  · intro hlt
    refine List.mem_of_getElem? (i := q.index - first) ?_
    rw [List.getElem?_take_of_lt (by omega), List.getElem?_drop,
      show first + (q.index - first) = q.index by omega, hget]

section
variable (hn : d.body.listed.Nodup) (hp : p ∈ d.passages) (hq : q ∈ d.passages)
  (hle : p.index ≤ q.index) (hpl : rules.headingLevel? p.style = some level)
  (hql : rules.headingLevel? q.style = some other)
include hn hp hq hle hpl hql

/-- A section lies inside the one that it starts in, and apart from one that it does not. -/
theorem headingSection_isInfix_or_disjoint :
    (q.handle ∈ Anchor.headingSection rules d.passages p ∧
      Anchor.headingSection rules d.passages q <:+: Anchor.headingSection rules d.passages p) ∨
    (q.handle ∉ Anchor.headingSection rules d.passages p ∧
      (Anchor.headingSection rules d.passages p).Disjoint
        (Anchor.headingSection rules d.passages q)) := by
  obtain ⟨first, hfirst, hpsection⟩ := exists_sectionEnds hp hpl
  obtain ⟨last, hlast, hqsection⟩ := exists_sectionEnds hq hql
  rw [hpsection, hqsection, handle_mem_take_drop hn hq hle]
  by_cases hlt : q.index < first
  · have hlevel : level ≤ other := by
      by_cases hsame : p.index = q.index
      · have hpq : p = q := Option.some.inj
          ((getElem?_index hp).symm.trans (hsame ▸ getElem?_index hq))
        subst hpq
        exact (Option.some.inj (hpl.symm.trans hql)).le
      · exact (hfirst.deeper q hq (by omega) hlt other hql).le
    exact .inl ⟨hlt, take_drop_isInfix hle (hfirst.le_of_lt hlast hlevel hlt)⟩
  · exact .inr ⟨hlt, disjoint_take_drop_of_le hn (by omega)⟩

end

end Document

/-! ## The range of a heading -/

variable {host : Host}

/-- The range of a heading is the part of the document that starts at it and ends where its section
does.  Of two headings the ranges lie apart or one inside the other, and the later one's range lies
inside the earlier one's if it starts there. -/
theorem Anchor.sectionRange_nests (ha : host.Answers) (hn : host.document.body.listed.Nodup)
    (rules : Rules) :
    (∀ p ∈ host.document.passages, ∀ level, rules.headingLevel? p.style = some level →
      ∃ stop, SectionEnds rules host.document.passages p level stop ∧
        (sectionRange rules p.handle).runOn host =
          (.ok (((host.document.passages.drop p.index).take (stop - p.index)).map (·.handle)),
            host)) ∧
    ∀ p ∈ Heading.headings rules host.document.passages,
      ∀ q ∈ Heading.headings rules host.document.passages,
        ∃ first second, (sectionRange rules p.handle).runOn host = (.ok first, host) ∧
          (sectionRange rules q.handle).runOn host = (.ok second, host) ∧
          (first.Disjoint second ∨ first <:+: second ∨ second <:+: first) ∧
          (p.index ≤ q.index → (second <:+: first ↔ q.handle ∈ first)) := by
  constructor
  · intro p hp level hlevel
    obtain ⟨stop, hstop, hsection⟩ := Document.exists_sectionEnds hp hlevel
    refine ⟨stop, hstop, ?_⟩
    rw [ha.sectionRange hn hp, hsection, ← Document.map_handle_passages, List.map_take,
      List.map_drop]
  · intro p hp q hq
    obtain ⟨hp, hpheading⟩ := List.mem_filter.1 hp
    obtain ⟨hq, hqheading⟩ := List.mem_filter.1 hq
    obtain ⟨level, hpl⟩ := Option.isSome_iff_exists.1 hpheading
    obtain ⟨other, hql⟩ := Option.isSome_iff_exists.1 hqheading
    refine ⟨_, _, ha.sectionRange hn hp, ha.sectionRange hn hq, ?_, ?_⟩
    · rcases le_total p.index q.index with hle | hle
      · rcases Document.headingSection_isInfix_or_disjoint hn hp hq hle hpl hql with h | h
        · exact .inr (.inr h.2)
        · exact .inl h.2
      · rcases Document.headingSection_isInfix_or_disjoint hn hq hp hle hql hpl with h | h
        · exact .inr (.inl h.2)
        · exact .inl h.2.symm
    · intro hle
      have hself : q.handle ∈ headingSection rules host.document.passages q := by
        simp [headingSection, hql]
      rcases Document.headingSection_isInfix_or_disjoint hn hp hq hle hpl hql with h | h
      · exact iff_of_true h.2 h.1
      · exact iff_of_false (fun hinside => h.1 (hinside.subset hself)) h.1

/-- A document with a section inside another one. -/
def nestedSections : Document where
  body :=
    .cons (.paragraph ⟨0⟩ "Heading 1" none) (.runOf "Plan".toList)
      (.cons (.paragraph ⟨1⟩ "Heading 2" none) (.runOf "Aims".toList)
        (.cons (.paragraph ⟨2⟩ "Normal" none) (.runOf "Ship it.".toList)
          (.single (.paragraph ⟨3⟩ "Heading 1" none) (.runOf "Costs".toList))))
  nextHandle := 4

theorem Anchor.sectionRange_nests_inside :
    ∃ first second,
      (sectionRange .standard ⟨0⟩).runOn { document := nestedSections } =
        (.ok first, { document := nestedSections }) ∧
      (sectionRange .standard ⟨1⟩).runOn { document := nestedSections } =
        (.ok second, { document := nestedSections }) ∧
      first = [⟨0⟩, ⟨1⟩, ⟨2⟩] ∧ second <:+: first := by
  have ha : Host.Answers { document := nestedSections } := ⟨rfl, rfl⟩
  obtain ⟨-, hnest⟩ := Anchor.sectionRange_nests ha (by decide) .standard
  obtain ⟨first, second, hfirst, hsecond, -, hinside⟩ := hnest ⟨0, "Plan", "Heading 1", ⟨0⟩⟩
    (by decide) ⟨1, "Aims", "Heading 2", ⟨1⟩⟩ (by decide)
  have hrange : (sectionRange .standard ⟨0⟩).runOn { document := nestedSections } =
      (.ok [⟨0⟩, ⟨1⟩, ⟨2⟩], { document := nestedSections }) := rfl
  obtain ⟨⟩ : Except.ok first = Except.ok [⟨0⟩, ⟨1⟩, ⟨2⟩] :=
    congrArg Prod.fst (hfirst.symm.trans hrange)
  exact ⟨_, second, hfirst, hsecond, rfl, (hinside (by decide)).2 (by decide)⟩

end Redline
