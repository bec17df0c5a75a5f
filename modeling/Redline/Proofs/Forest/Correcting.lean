import Redline.Proofs.Forest.Splice
import Redline.Proofs.Text.Correcting

/-!
# Contents whose matches give way

The matches of a paragraph lie in its run text, and the runs part that text.  When the matches give
way to a new text, every run makes of its own part what the positions of the characters say, and a
run that shares no character with a match stays as it is.

Splicing one match after the other, the last one first, comes to the same: what the matches behind
it have done lies behind the match.  A run that a match touches is written anew, and in that a return
becomes a feed; so this takes that the returns of such a run go with the match or have gone with those
behind it.

## Main definitions

* `Forest.corrected` — a content whose matches have given way to a new text.
* `Forest.child?`, `Forest.at?` — an element by its place, and by a path of places.
* `Forest.offset` — where the element at a place begins in the run text.
* `Forest.isTouched` — whether a match touches the run at a place.
* `Forest.keepsReturn` — whether a run keeps a return when a match gives way in it.
-/

namespace Redline.Forest

open Redline.Text

/-- A content that begins at a position of the run text, with its matches given way to a new
text.  What stands in the runs that a match touches goes. -/
def corrected (spans : List Span) (new : List Char) : Nat → Forest → Forest
  | _, .nil => .nil
  | position, .cons (.run text format) inside rest =>
    let next := position + text.toList.length
    .cons (.run (String.ofList (Text.corrected spans new position text.toList)) format)
      (if ∃ s ∈ spans, s.Touches position next then .nil else inside)
      (corrected spans new next rest)
  | position, .cons e inside rest => .cons e inside (corrected spans new position rest)

/-- The element at a place of a forest, with what is inside it. -/
def child? : Forest → Nat → Option (Element × Forest)
  | .nil, _ => none
  | .cons e inside _, 0 => some (e, inside)
  | .cons _ _ rest, k + 1 => rest.child? k

/-- The position of the run text at which the element at a place begins. -/
def offset : Forest → Nat → Nat
  | .nil, _ => 0
  | .cons _ _ _, 0 => 0
  | .cons e inside rest, k + 1 => (single e inside).runText.length + rest.offset k

/-- The element at the end of a path, with what is inside it. -/
def at? : Forest → List Nat → Option (Element × Forest)
  | _, [] => none
  | f, k :: path =>
    (f.child? k).bind fun child => if path.isEmpty then some child else child.2.at? path

/-- Whether a match touches the run at a place of a content. -/
def isTouched (spans : List Span) (f : Forest) (k : Nat) : Bool :=
  match f.child? k with
  | some (.run text _, _) =>
    decide (∃ s ∈ spans, s.Touches (f.offset k) (f.offset k + text.toList.length))
  | _ => false

/-- Whether a run keeps a return when a match gives way in it, in a content that begins at a position:
the return belongs neither to this match nor to one behind it. -/
def keepsReturn (spans : List Span) : Nat → Forest → Bool
  | _, .nil => false
  | position, .cons (.run text _) _ rest =>
    let next := position + text.toList.length
    decide (∃ s ∈ spans, s.Touches position next ∧ ∃ k ∈ returns position text.toList,
        ¬ ∃ t ∈ spans, s.start ≤ t.start ∧ t.Holds k) ||
      keepsReturn spans next rest
  | position, .cons _ _ rest => keepsReturn spans position rest

section
variable {s : Span} {spans later : List Span} {new : List Char} {position : Nat} {f : Forest}

theorem keepsReturn_cons_other {e : Element} (inside rest : Forest)
    (he : ∀ text format, e ≠ .run text format) :
    keepsReturn spans position (.cons e inside rest) = keepsReturn spans position rest := by
  cases e <;> simp_all [keepsReturn]

theorem keepsReturn_cons_run (text : String) (format : RunFormat) (inside rest : Forest) :
    keepsReturn spans position (.cons (.run text format) inside rest) = false ↔
      (∀ s ∈ spans, s.Touches position (position + text.toList.length) →
        ∀ k ∈ returns position text.toList, ∃ t ∈ spans, s.start ≤ t.start ∧ t.Holds k) ∧
      keepsReturn spans (position + text.toList.length) rest = false := by
  simp only [keepsReturn, Bool.or_eq_false_iff, decide_eq_false_iff_not, not_exists, not_and]
  grind

/-- Runs without returns keep none. -/
theorem keepsReturn_of_readable (hf : f.OfKind isReadable) :
    keepsReturn spans position f = false := by
  induction f generalizing position with
  | nil => rfl
  | cons e inside rest _ ih =>
    rw [ofKind_cons] at hf
    by_cases he : ∃ text format, e = .run text format
    · obtain ⟨text, format, rfl⟩ := he
      exact (keepsReturn_cons_run text format inside rest).2 ⟨fun _ _ _ k hk =>
        absurd rfl (isReadable_iff.1 (hf.1 _ (mem_of_mem_returns hk))).2, ih hf.2.2⟩
    · rw [keepsReturn_cons_other _ _ (by simpa using he), ih hf.2.2]

/-- The first match has no part in what those behind it keep. -/
theorem keepsReturn_of_cons (ho : InOrder (s :: later))
    (h : keepsReturn (s :: later) position f = false) : keepsReturn later position f = false := by
  induction f generalizing position with
  | nil => rfl
  | cons e inside rest _ ih =>
    by_cases he : ∃ text format, e = .run text format
    · obtain ⟨text, format, rfl⟩ := he
      rw [keepsReturn_cons_run] at h ⊢
      refine ⟨fun t ht htouches k hk => ?_, ih h.2⟩
      obtain ⟨u, hu, hle, hholds⟩ := h.1 t (List.mem_cons_of_mem s ht) htouches k hk
      rcases List.mem_cons.1 hu with rfl | hu
      · have hfilled := ho.filled u List.mem_cons_self
        have hapart := ho.stop_le t ht
        omega
      · exact ⟨u, hu, hle, hholds⟩
    · have he := (by simpa using he : ∀ text format, e ≠ .run text format)
      rw [keepsReturn_cons_other _ _ he] at h ⊢
      exact ih h

theorem corrected_cons_other {e : Element} (inside rest : Forest)
    (he : ∀ text format, e ≠ .run text format) :
    corrected spans new position (.cons e inside rest) =
      .cons e inside (corrected spans new position rest) := by
  cases e <;> simp_all [corrected]

theorem corrected_nil (f : Forest) : corrected [] new position f = f := by
  induction f generalizing position with
  | nil => rfl
  | cons e inside rest _ ih =>
    by_cases he : ∃ text format, e = .run text format
    · obtain ⟨text, format, rfl⟩ := he
      rw [corrected, ih, corrected_of_untouched (by simp) (by simp)]
      simp
    · rw [corrected_cons_other _ _ (by simpa using he), ih]

/-- What becomes of a content is what becomes of its run text. -/
theorem runText_corrected (f : Forest) :
    (corrected spans new position f).runText = Text.corrected spans new position f.runText := by
  induction f generalizing position with
  | nil => rfl
  | cons e inside rest _ ih =>
    by_cases he : ∃ text format, e = .run text format
    · obtain ⟨text, format, rfl⟩ := he
      rw [corrected, runText_cons_run, runText_cons_run, ih, corrected_append, String.toList_ofList]
    · have he := (by simpa using he : ∀ text format, e ≠ .run text format)
      rw [corrected_cons_other _ _ he, runText_cons_other _ _ he, runText_cons_other _ _ he, ih]

/-! ## Splicing -/

/-- A match that is over does not concern what follows. -/
theorem corrected_cons_of_stop_le (hs : s.start < s.stop) (hp : s.stop ≤ position) (f : Forest) :
    corrected (s :: later) new position f = corrected later new position f := by
  induction f generalizing position with
  | nil => rfl
  | cons e inside rest _ ih =>
    by_cases he : ∃ text format, e = .run text format
    · obtain ⟨text, format, rfl⟩ := he
      have hover : ¬ s.Touches position (position + text.toList.length) := by
        simp only [Span.Touches]
        omega
      rw [corrected, corrected, ih (by omega), Text.corrected_cons_of_stop_le hs hp]
      simp [hover]
    · have he := (by simpa using he : ∀ text format, e ≠ .run text format)
      rw [corrected_cons_other _ _ he, corrected_cons_other _ _ he, ih hp]

theorem ofKind_corrected {kind : Char → Bool} (hf : f.OfKind kind)
    (hn : ∀ c ∈ new, kind c = true) : (corrected spans new position f).OfKind kind := by
  induction f generalizing position with
  | nil => exact hf
  | cons e inside rest _ ih =>
    rw [ofKind_cons] at hf
    by_cases he : ∃ text format, e = .run text format
    · obtain ⟨text, format, rfl⟩ := he
      rw [corrected, ofKind_cons]
      refine ⟨fun c hc => ?_, ?_, ih hf.2.2⟩
      · rw [Element.characters, String.toList_ofList] at hc
        exact (mem_corrected hc).elim (hn c) (hf.1 c)
      · split
        · exact ofKind_nil
        · exact hf.2.1
    · rw [corrected_cons_other _ _ (by simpa using he), ofKind_cons]
      exact ⟨hf.1, hf.2.1, ih hf.2.2⟩

theorem handles_corrected_sublist (f : Forest) :
    (corrected spans new position f).handles.Sublist f.handles := by
  induction f generalizing position with
  | nil => exact .refl _
  | cons e inside rest _ ih =>
    by_cases he : ∃ text format, e = .run text format
    · obtain ⟨text, format, rfl⟩ := he
      rw [corrected, handles_cons, handles_cons]
      refine .append (.refl _) (.append ?_ ih)
      split
      · exact List.nil_sublist _
      · exact .refl _
    · rw [corrected_cons_other _ _ (by simpa using he), handles_cons, handles_cons]
      exact .append (.refl _) (.append (.refl _) ih)

theorem isReadable_map_readBack {replacement : List Char} (hw : isWritable replacement = true) :
    ∀ c ∈ replacement.map readBack, isReadable c = true := by
  intro c hc
  obtain ⟨a, ha, rfl⟩ := List.mem_map.1 hc
  exact isReadable_readBack (isWritable_iff.1 hw a ha)

/-- One more match gives way in a run that does not lie behind it. -/
theorem spliceFrom_corrected_run {replacement : List Char} {text : String} (format : RunFormat)
    (inside rest : Forest) (h : InOrder (s :: later)) (hp : position < s.stop)
    (hr : ∀ c ∈ text.toList, isAllowed c = true) (hw : isWritable replacement = true)
    (hreturn : s.Touches position (position + text.toList.length) →
      ∀ k ∈ returns position text.toList, ∃ t ∈ s :: later, t.Holds k) :
    let next := position + text.toList.length
    let new := replacement.map readBack
    let cut := Text.corrected later new position text.toList
    let spliced := spliceFrom s.start s.stop (position + cut.length)
      (if next ≤ s.start then replacement else []) (corrected later new next rest)
    spliceFrom s.start s.stop position (if position ≤ s.start then replacement else [])
        (corrected later new position (.cons (.run text format) inside rest)) =
      (.cons (.run (String.ofList (Text.corrected (s :: later) new position text.toList)) format)
          (if ∃ t ∈ s :: later, t.Touches position next then .nil else inside) spliced.1,
        spliced.2) := by
  intro next new cut spliced
  have hfilled := h.filled s List.mem_cons_self
  have hcut := corrected_later new text.toList h hp.le
  have hlist : (String.ofList cut).toList = cut := String.toList_ofList
  rw [corrected]
  by_cases ht : s.Touches position next
  · have hallowed : ∀ {spans : List Span} {c : Char},
        c ∈ Text.corrected spans new position text.toList → isAllowed c = true := fun hc =>
      (mem_corrected hc).elim (fun hn => (isReadable_iff.1 (isReadable_map_readBack hw _ hn)).1)
        (hr _)
    have hcutAllowed : ∀ c ∈ (String.ofList cut).toList, isAllowed c = true := by
      rw [hlist]
      exact fun c hc => hallowed hc
    have hread : ∀ c ∈ Text.corrected (s :: later) new position text.toList,
        isReadable c = true := by
      refine fun c hc => isReadable_iff.2 ⟨hallowed hc, ?_⟩
      rintro rfl
      have hn : '\r' ∉ new := fun hn =>
        (isReadable_iff.1 (isReadable_map_readBack hw _ hn)).2 rfl
      exact return_notMem_corrected hn (hreturn ht) hc
    -- What the splice keeps of the run stands in the run afterwards.
    rw [← replace_corrected h ht] at hread
    have hfront : ∀ c ∈ (String.ofList cut).toList.take (s.start - position),
        isReadable c = true := by
      rw [hlist]
      exact fun c hc => hread c (List.mem_append_left _ (List.mem_append_left _ hc))
    have hback : ∀ c ∈ (String.ofList cut).toList.drop (s.stop - position),
        isReadable c = true := by
      rw [hlist]
      exact fun c hc => hread c (List.mem_append_right _ hc)
    have hsound : isWritable (if position ≤ s.start then replacement else []) = true := by
      split
      · exact hw
      · rfl
    have htouched : ¬ (position + (String.ofList cut).toList.length ≤ s.start ∨
        s.stop ≤ position) := by
      rw [hlist]
      have := ht.1
      rcases hcut with ⟨_, hsame⟩ | ⟨_, hreach⟩
      · simp only [cut, hsame]
        omega
      · simp only [cut]
        omega
    have hnew : (if position ≤ s.start then replacement else []).map readBack =
        if position ≤ s.start then new else [] := by
      split <;> rfl
    have hbehind : ¬ next ≤ s.start := by
      have := ht.1
      omega
    have hsome : ∃ t ∈ s :: later, t.Touches position next := ⟨s, List.mem_cons_self, ht⟩
    rw [spliceFrom_cons_touched _ _ _ _ hsound hcutAllowed htouched,
      written_spliced hsound hcutAllowed hfront hback, hnew, hlist, replace_corrected h ht,
      if_pos hsome]
    simp only [spliced, if_neg hbehind]
    rfl
  · -- A match that does not lie in front of the run either lies behind it, as the later ones do.
    have hend : next ≤ s.start := by
      simp only [Span.Touches] at ht
      omega
    have hnone : ∀ t ∈ s :: later, ¬ t.Touches position next := by
      refine List.forall_mem_cons.2 ⟨ht, fun t hmem htouches => ?_⟩
      have := h.stop_le t hmem
      have := htouches.1
      omega
    have hsame : cut = text.toList := corrected_of_untouched h.of_cons.filled
      fun t hmem => hnone t (List.mem_cons_of_mem s hmem)
    have huntouched : position + (String.ofList cut).toList.length ≤ s.start ∨
        s.stop ≤ position := by
      rw [hlist, hsame]
      exact Or.inl hend
    have hfirst : position ≤ s.start := by omega
    have hall : ¬ ∃ t ∈ s :: later, t.Touches position next := by
      rintro ⟨t, hmem, htouches⟩
      exact hnone t hmem htouches
    have hlater : ¬ ∃ t ∈ later, t.Touches position next := by
      rintro ⟨t, hmem, htouches⟩
      exact hnone t (List.mem_cons_of_mem s hmem) htouches
    rw [spliceFrom_cons_untouched _ _ _ _ huntouched, hlist, if_pos hfirst,
      if_neg hall, if_neg hlater, corrected_of_untouched h.filled hnone]
    simp only [spliced, if_pos hend, hsame]
    rfl

/-- One more match gives way, in front of those that have. -/
theorem spliceFrom_corrected {replacement : List Char} (position : Nat)
    (h : InOrder (s :: later)) (hf : f.OfKind isAllowed) (hw : isWritable replacement = true)
    (hreturn : keepsReturn (s :: later) position f = false) :
    spliceFrom s.start s.stop position (if position ≤ s.start then replacement else [])
        (corrected later (replacement.map readBack) position f) =
      (corrected (s :: later) (replacement.map readBack) position f, true) := by
  have hfilled := h.filled s List.mem_cons_self
  induction f generalizing position with
  | nil => rfl
  | cons e inside rest _ ih =>
    rw [ofKind_cons] at hf
    by_cases he : ∃ text format, e = .run text format
    · obtain ⟨text, format, rfl⟩ := he
      by_cases hover : s.stop ≤ position
      · rw [spliceFrom_of_stop_le hover, corrected_cons_of_stop_le hfilled hover]
      rw [keepsReturn_cons_run] at hreturn
      -- The place behind the run has moved only if the match ends within the run.
      have hrest : spliceFrom s.start s.stop (position +
            (Text.corrected later (replacement.map readBack) position text.toList).length)
          (if position + text.toList.length ≤ s.start then replacement else [])
            (corrected later (replacement.map readBack) (position + text.toList.length) rest) =
          (corrected (s :: later) (replacement.map readBack) (position + text.toList.length) rest,
            true) := by
        rcases corrected_later (replacement.map readBack) text.toList h
          (Nat.le_of_not_le hover) with ⟨_, hsame⟩ | ⟨hend, hreach⟩
        · rw [hsame]
          exact ih _ hf.2.2 hreturn.2
        · rw [spliceFrom_of_stop_le hreach, corrected_cons_of_stop_le hfilled hend.le]
      have hrun := spliceFrom_corrected_run format inside rest h (Nat.lt_of_not_le hover)
        hf.1 hw fun ht k hk => by
          obtain ⟨t, hmem, -, hholds⟩ := hreturn.1 s List.mem_cons_self ht k hk
          exact ⟨t, hmem, hholds⟩
      simp only [hrest] at hrun
      exact hrun
    · have he := (by simpa using he : ∀ text format, e ≠ .run text format)
      rw [keepsReturn_cons_other _ _ he] at hreturn
      rw [corrected_cons_other _ _ he, corrected_cons_other _ _ he, spliceFrom_cons_other _ _ he,
        ih _ hf.2.2 hreturn]

/-! ## Places -/

@[simp] theorem child?_nil (k : Nat) : Forest.nil.child? k = none := by
  cases k <;> rfl

@[simp] theorem offset_nil (k : Nat) : Forest.nil.offset k = 0 := by
  cases k <;> rfl

/-- An element that is no run stays, with what is inside it. -/
theorem child?_corrected_other {k : Nat} {e : Element} {inside : Forest}
    (he : ∀ text format, e ≠ .run text format) (hk : f.child? k = some (e, inside)) :
    (corrected spans new position f).child? k = some (e, inside) := by
  induction f generalizing position k with
  | nil => simp at hk
  | cons first within rest _ ih =>
    cases k with
    | zero =>
      obtain ⟨rfl, rfl⟩ := Prod.mk.inj (Option.some.inj hk)
      rw [corrected_cons_other _ _ he]
      rfl
    | succ k =>
      by_cases hfirst : ∃ text format, first = .run text format
      · obtain ⟨text, format, rfl⟩ := hfirst
        exact ih hk
      · rw [corrected_cons_other _ _ (by simpa using hfirst)]
        exact ih hk

/-- A run stays a run of its look; its text is corrected, and what is inside it goes if a match
touches it. -/
theorem child?_corrected_run {k : Nat} {text : String} {format : RunFormat} {inside : Forest}
    (hk : f.child? k = some (.run text format, inside)) :
    let first := position + f.offset k
    (corrected spans new position f).child? k =
      some (.run (String.ofList (Text.corrected spans new first text.toList)) format,
        if ∃ s ∈ spans, s.Touches first (first + text.toList.length) then .nil else inside) := by
  intro first
  induction f generalizing position k with
  | nil => simp at hk
  | cons e within rest _ ih =>
    cases k with
    | zero =>
      obtain ⟨rfl, rfl⟩ := Prod.mk.inj (Option.some.inj hk)
      rfl
    | succ k =>
      by_cases he : ∃ text format, e = .run text format
      · obtain ⟨front, look, rfl⟩ := he
        have hfirst : first = position + front.toList.length + rest.offset k := by
          simp [first, offset, single, Nat.add_assoc]
        rw [hfirst]
        exact ih hk
      · have he := (by simpa using he : ∀ text format, e ≠ .run text format)
        have hfirst : first = position + rest.offset k := by
          simp [first, offset, single, runText_cons_other _ _ he]
        rw [hfirst, corrected_cons_other _ _ he]
        exact ih hk

theorem child?_corrected_eq_none {k : Nat} :
    (corrected spans new position f).child? k = none ↔ f.child? k = none := by
  induction f generalizing position k with
  | nil => rfl
  | cons e inside rest _ ih =>
    by_cases he : ∃ text format, e = .run text format
    · obtain ⟨text, format, rfl⟩ := he
      cases k with
      | zero => simp [corrected, child?]
      | succ k => exact ih
    · rw [corrected_cons_other _ _ (by simpa using he)]
      cases k with
      | zero => rfl
      | succ k => exact ih

theorem isTouched_of_child? {k : Nat} {e : Element} {inside : Forest}
    (hk : f.child? k = some (e, inside)) (he : ∀ text format, e ≠ .run text format) :
    f.isTouched spans k = false := by
  cases e <;> simp_all [isTouched]

theorem child?_corrected_of_not_touched {k : Nat} (hs : ∀ s ∈ spans, s.start < s.stop)
    (h : f.isTouched spans k = false) : (corrected spans new 0 f).child? k = f.child? k := by
  rcases hk : f.child? k with _ | ⟨e, inside⟩
  · exact child?_corrected_eq_none.2 hk
  by_cases he : ∃ text format, e = .run text format
  · obtain ⟨text, format, rfl⟩ := he
    have hnone : ¬ ∃ s ∈ spans, s.Touches (f.offset k) (f.offset k + text.toList.length) := by
      simpa only [isTouched, hk, decide_eq_false_iff_not] using h
    rw [child?_corrected_run hk, Nat.zero_add, if_neg hnone,
      corrected_of_untouched hs fun s hmem htouches => hnone ⟨s, hmem, htouches⟩,
      String.ofList_toList]
  · exact child?_corrected_other (by simpa using he) hk

/-- Everything stays that does not stand in a run that a match touches. -/
theorem at?_corrected_of_not_touched {k : Nat} (path : List Nat)
    (hs : ∀ s ∈ spans, s.start < s.stop) (h : f.isTouched spans k = false) :
    (corrected spans new 0 f).at? (k :: path) = f.at? (k :: path) := by
  rw [at?, at?, child?_corrected_of_not_touched hs h]

/-- Nothing stays that stands in a run that a match touches. -/
theorem at?_corrected_of_touched {k : Nat} {path : List Nat} (hpath : path ≠ [])
    (h : f.isTouched spans k = true) : (corrected spans new 0 f).at? (k :: path) = none := by
  have hnil : ∀ path, Forest.nil.at? path = none := by
    rintro (_ | ⟨k, path⟩)
    · rfl
    · rw [at?, child?_nil, Option.bind_none]
  rcases hk : f.child? k with _ | ⟨e, inside⟩
  · simp [isTouched, hk] at h
  cases e with
  | run text format =>
    have hsome : ∃ s ∈ spans, s.Touches (f.offset k) (f.offset k + text.toList.length) := by
      simpa only [isTouched, hk, decide_eq_true_eq] using h
    rw [at?, child?_corrected_run hk, Nat.zero_add, if_pos hsome, Option.bind_some,
      if_neg (by simpa using hpath), hnil]
  | _ => simp [isTouched, hk] at h

end

end Redline.Forest
