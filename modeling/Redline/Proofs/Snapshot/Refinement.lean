import Redline.Proofs.Execution.Insertion
import Redline.Proofs.Forest.Marks
import Redline.Proofs.Snapshot.Outline

/-!
# Block plans on documents

A run of a block plan changes a document as it changes the list of its paragraphs.  Every operation
finds its paragraph by the handle that was mapped to its block at the start, so none is led astray by
those before it.

## Main definitions

* `Operation.Fits` — when an operation can be carried out.
* `Snapshot.Follows` — what one operation does to the document of a host.
-/

namespace Redline

open Redline.Text

/-! ## Lines -/

namespace Text

/-- The characters of a line are characters of the text, and no returns. -/
theorem mem_of_mem_linesFrom {acc text line : List Char} {c : Char}
    (hl : line ∈ linesFrom acc text) (hc : c ∈ line) : c ∈ acc ∨ c ∈ text ∧ c ≠ '\r' := by
  -- The rest of the text, behind a line end, is read with an empty line.
  have hbehind : ∀ {acc rest whole : List Char}, rest ⊆ whole →
      (line ∈ linesFrom [] rest → c ∈ [] ∨ c ∈ rest ∧ c ≠ '\r') →
      line ∈ acc.reverse :: linesFrom [] rest → c ∈ acc ∨ c ∈ whole ∧ c ≠ '\r' := by
    intro acc rest whole hsub ih hl
    rcases List.mem_cons.1 hl with rfl | hl
    · exact .inl (List.mem_reverse.1 hc)
    · exact .inr ((ih hl).resolve_left List.not_mem_nil |>.imp_left fun h => hsub h)
  induction acc, text using linesFrom.induct with
  | case1 acc => simp_all [linesFrom]
  | case2 acc rest ih | case4 acc rest ih =>
    rw [linesFrom] at hl
    exact hbehind (by simp) ih hl
  | case3 acc rest hr ih =>
    rw [linesFrom.eq_3 _ _ hr] at hl
    exact hbehind (by simp) ih hl
  | case5 acc d rest hn hr hf ih =>
    rw [linesFrom.eq_5 _ _ _ hn hr hf] at hl
    rcases ih hl with hacc | hrest
    · rcases List.mem_cons.1 hacc with rfl | hacc
      · exact .inr ⟨List.mem_cons_self, fun he => hr he⟩
      · exact .inl hacc
    · exact .inr ⟨List.mem_cons_of_mem _ hrest.1, hrest.2⟩

theorem linesFrom_ne_nil (acc text : List Char) : linesFrom acc text ≠ [] := by
  induction acc, text using linesFrom.induct with
  | case5 acc c rest hn hr hf ih => rwa [linesFrom.eq_5 _ _ _ hn hr hf]
  | _ => simp [linesFrom]

/-- The lines of a text that can be written can be written. -/
theorem isWritable_line {text line : List Char} (hw : isWritable text = true)
    (hl : line ∈ lines text) : isWritable line = true := by
  rw [isWritable, List.all_eq_true] at hw ⊢
  exact fun c hc => hw c ((mem_of_mem_linesFrom hl hc).resolve_left List.not_mem_nil).1

/-- A line reads back as it is. -/
theorem written_line {text line : List Char} (hl : line ∈ lines text)
    (hw : isWritable line = true) : written line = line := by
  rw [written_of_isWritable hw]
  refine (List.map_congr_left fun c hc => ?_).trans (List.map_id line)
  have hreturn := ((mem_of_mem_linesFrom hl hc).resolve_left List.not_mem_nil).2
  simp [readBack, hreturn]

end Text

/-! ## Setting a text -/

theorem Effect.shownText_textContent {text : List Char} (hw : isWritable text = true)
    (content : Forest) : (textContent text content).shownText = text.map readBack := by
  simp [textContent, hw, (Forest.AllMarks.startMarks _).shownText_eq,
    (Forest.AllMarks.endMarks _).shownText_eq, Forest.shownText_runOf, written_of_isWritable hw]

namespace Document

variable {d : Document} {p : Paragraph} {h : Handle} {known : Nat}

theorem apply_setText (hd : d.WellFormed) (hp : p ∈ d.paragraphs) (text : String) :
    (Effect.setText p.handle text).apply d =
      (d.put { p with content := Effect.textContent text.toList p.content },
        if isWritable text.toList then none else some .forbiddenCharacter) := by
  rw [Effect.apply, Effect.applySetText, modifyInside_of_listed hd (mem_listed_iff.2 ⟨p, hp, rfl⟩)]
  congr 1
  exact rewriteAt_eq_put
    (r := fun p => { p with content := Effect.textContent text.toList p.content }) hd hp rfl

theorem becomes_setText {d' : Document} (hd : d.WellFormed) (hp : p ∈ d.paragraphs)
    (text : String) :
    d.Becomes [.setText p.handle text] d' ↔ isWritable text.toList = true ∧
      d' = d.put { p with content := Effect.textContent text.toList p.content } := by
  rw [becomes_cons, apply_setText hd hp]
  by_cases hw : isWritable text.toList = true <;> simp [hw]

theorem original_entry_eq_iff (hh : h.number < known) :
    (p.entry known).original = some h ↔ p.handle = h := by
  by_cases hp : p.handle.number < known
  · simp [Paragraph.entry, hp]
  · have hne : p.handle ≠ h := fun he => hp (he ▸ hh)
    simp [Paragraph.entry, hp, hne]

theorem outline_congr {d' : Document} (hb : d.body = d'.body) :
    d.outline known = d'.outline known := by
  rw [outline, outline, paragraphs, paragraphs, hb]

/-- An edit at an old paragraph changes the outline at its entry alone. -/
theorem outline_rewriteAt {style : String} {op : Operation} {r : Paragraph → Forest}
    (hh : h.number < known)
    (hr : ∀ p ∈ d.paragraphs, p.handle = h →
      (r p).paragraphs.map (·.entry known) = Snapshot.edit style op (p.entry known)) :
    (d.rewriteAt h r).outline known = Snapshot.editOutline style op h (d.outline known) := by
  rw [outline, paragraphs, body_rewriteAt, Forest.paragraphs_rewriteAt, List.map_flatMap,
    Snapshot.editOutline, outline, List.flatMap_map]
  refine List.flatMap_congr fun p hp => ?_
  simp only [original_entry_eq_iff hh]
  split
  · next he => exact hr p hp he
  · rfl

end Document

/-! ## One operation -/

/-- The operation can be carried out: what it writes can be written, and new paragraphs get a style
that the document knows. -/
def Operation.Fits (sheet : Stylesheet) (rules : Rules) (op : Operation) : Prop :=
  match op.kind with
  | .replace => isWritable op.content.toList = true
  | .insertBefore | .insertAfter =>
    (∀ line ∈ lines op.content.toList, isWritable line = true) ∧ sheet.Knows rules.normalStyle

/-- An operation fits if its content can be written and the document knows the style of the
paragraphs that it makes. -/
theorem Operation.fits_of_knows {sheet : Stylesheet} {rules : Rules} {op : Operation}
    (hs : op.kind ≠ .replace → sheet.Knows rules.normalStyle)
    (hw : isWritable op.content.toList = true) : op.Fits sheet rules := by
  have hlines : ∀ line ∈ lines op.content.toList, isWritable line = true :=
    fun _ hl => isWritable_line hw hl
  rw [Operation.Fits]
  cases hkind : op.kind with
  | replace => exact hw
  | insertBefore => exact ⟨hlines, hs (hkind ▸ nofun)⟩
  | insertAfter => exact ⟨hlines, hs (hkind ▸ nofun)⟩

namespace Snapshot

open Editing

variable {rules : Rules} {snapshot : Snapshot} {m : Mapping} {op : Operation} {h : Handle}
  {known : Nat} {host after : Host} {sheet : Stylesheet}

/-- The host after an operation on the paragraph with the given handle. -/
structure Follows (rules : Rules) (known : Nat) (op : Operation) (h : Handle)
    (host after : Host) : Prop where
  ready : after.Ready
  nextHandle : host.document.nextHandle ≤ after.document.nextHandle
  listed : host.document.body.listed ⊆ after.document.body.listed
  styles : after.document.styles = host.document.styles
  outline : after.document.outline known =
    editOutline (host.document.styles.shownAs rules.normalStyle) op h (host.document.outline known)

/-- The looks of a line. -/
def lineLooks (rules : Rules) (_ : List Char) : Option (List Look) := some [.style rules.normalStyle]

theorem dress_line (rules : Rules) (h : Handle) (line : List Char) (host after : Host) :
    (Host.queue (.setStyle h rules.normalStyle)).runOn host = (.ok (), after) ↔
      ∃ l, lineLooks rules line = some l ∧
        after = host.queueing host.document (l.map (·.effect h)) := by
  simp [lineLooks, Host.queueing, Look.effect, eq_comm]

theorem shownText_made {n : Nat} {text line : List Char} (hl : line ∈ lines text)
    (hw : isWritable line = true) :
    (Document.made sheet n (String.ofList line)).content.shownText = line := by
  rw [Document.made]
  split
  · next he =>
    obtain rfl : line = [] := by simpa using he
    rfl
  · rw [Forest.shownText_runOf, String.toList_ofList, written_line hl hw]

theorem giveAll_style {p q : Paragraph} :
    Look.giveAll sheet p [.style rules.normalStyle] = some q ↔
      ∃ style, sheet.resolve rules.normalStyle = .ok style ∧ q = { p with style } := by
  cases hs : sheet.resolve rules.normalStyle <;>
    simp [Look.giveAll, Look.give, hs, Except.toOption, eq_comm]

/-- The paragraphs of lines are those entries that lines stand for. -/
theorem entries_of_lines {text : List Char} {ls : List (List Char)} (hls : ls ⊆ lines text)
    {n : Nat} (hn : known ≤ n) {items : List (String × List Look)} {news : List Paragraph}
    (hitems : List.Forall₂
      (fun line item => Execution.itemOf String.ofList (lineLooks rules) line = some item) ls items)
    (hnews : Document.Dressed sheet (Document.insertions sheet n items) news) :
    news.map (·.entry known) =
      ls.map fun line => ⟨none, sheet.shownAs rules.normalStyle, none, line⟩ := by
  induction hitems generalizing n news with
  | nil =>
    cases hnews
    rfl
  | @cons line item rest items hitem _ ih =>
    obtain ⟨hw, l, hl, rfl⟩ := Execution.itemOf_eq_some.1 hitem
    obtain rfl := Option.some.inj hl
    rw [String.toList_ofList] at hw
    cases hnews with
    | @cons _ q _ news hq hnews =>
      obtain ⟨style, hstyle, rfl⟩ := giveAll_style.1 hq
      have hrest := ih (fun line hl => hls (List.mem_cons_of_mem _ hl)) (hn.trans (Nat.le_succ n))
        hnews
      have hname : sheet.shownAs rules.normalStyle = style := Stylesheet.shownAs_of_resolve hstyle
      have htext := @shownText_made sheet n _ _ (hls List.mem_cons_self) hw
      rw [List.map_cons, List.map_cons, hrest]
      simp only [Paragraph.entry, Document.handle_made, htext, hname, Nat.not_lt.2 hn, if_false]
      rfl

theorem writable_of_items {ls : List (List Char)} {items : List (String × List Look)}
    (hitems : List.Forall₂
      (fun line item => Execution.itemOf String.ofList (lineLooks rules) line = some item)
      ls items) : ∀ line ∈ ls, isWritable line = true := by
  induction hitems with
  | nil => simp
  | cons hitem _ ih =>
    simpa using ⟨by simpa using (Execution.itemOf_eq_some.1 hitem).1, ih⟩

theorem knows_of_news {ls : List (List Char)} (hls : ls ≠ []) {n : Nat}
    {items : List (String × List Look)} {news : List Paragraph}
    (hitems : List.Forall₂
      (fun line item => Execution.itemOf String.ofList (lineLooks rules) line = some item) ls items)
    (hnews : Document.Dressed sheet (Document.insertions sheet n items) news) :
    sheet.Knows rules.normalStyle := by
  cases hitems with
  | nil => exact absurd rfl hls
  | cons hitem _ =>
    obtain ⟨_, l, hl, rfl⟩ := Execution.itemOf_eq_some.1 hitem
    obtain rfl := Option.some.inj hl
    cases hnews with
    | cons hq _ =>
      obtain ⟨style, hstyle, _⟩ := giveAll_style.1 hq
      exact ⟨style, hstyle⟩

/-- Lines that can be written are inserted as they are. -/
theorem exists_items {ls : List (List Char)} (hw : ∀ line ∈ ls, isWritable line = true) :
    ∃ items, List.Forall₂
      (fun line item => Execution.itemOf String.ofList (lineLooks rules) line = some item)
      ls items := by
  induction ls with
  | nil => exact ⟨[], .nil⟩
  | cons line rest ih =>
    obtain ⟨items, hitems⟩ := ih fun l hl => hw l (List.mem_cons_of_mem _ hl)
    refine ⟨(String.ofList line, [.style rules.normalStyle]) :: items, .cons ?_ hitems⟩
    exact Execution.itemOf_eq_some.2 ⟨by simpa using hw line List.mem_cons_self, _, rfl, rfl⟩

/-- Every line gets its style if the document knows it. -/
theorem exists_news (hs : sheet.Knows rules.normalStyle)
    {ls : List (List Char)} {items : List (String × List Look)}
    (hitems : List.Forall₂
      (fun line item => Execution.itemOf String.ofList (lineLooks rules) line = some item) ls items)
    (n : Nat) :
    ∃ news, Document.Dressed sheet (Document.insertions sheet n items) news := by
  obtain ⟨style, hstyle⟩ := hs
  induction hitems generalizing n with
  | nil => exact ⟨[], .nil⟩
  | @cons line item rest items hitem _ ih =>
    obtain ⟨_, l, hl, rfl⟩ := Execution.itemOf_eq_some.1 hitem
    obtain rfl := Option.some.inj hl
    obtain ⟨news, hnews⟩ := ih (n + 1)
    exact ⟨_ :: news, .cons (giveAll_style.2 ⟨style, hstyle, rfl⟩) hnews⟩

/-- The kind of the operation that inserts on a side. -/
def kindOf : Side → OperationKind
  | .before => .insertBefore
  | .after => .insertAfter

theorem fits_of_kindOf {side : Side} (hkind : op.kind = kindOf side) :
    op.Fits sheet rules ↔ (∀ line ∈ lines op.content.toList, isWritable line = true) ∧
      sheet.Knows rules.normalStyle := by
  cases side <;> simp [Operation.Fits, hkind, kindOf]

theorem edit_of_kindOf {style : String} {side : Side} (hkind : op.kind = kindOf side)
    {p : Paragraph} {news : List Paragraph}
    (hnews : news.map (·.entry known) = newEntries style op) :
    (p.beside side news).paragraphs.map (·.entry known) = edit style op (p.entry known) := by
  cases side <;>
    simp [Paragraph.beside, edit, hkind, kindOf, Forest.paragraphs_join_tree, hnews]

section
variable (hh : host.Ready) (hl : h ∈ host.document.body.listed)
include hh hl

/-- Inserting lines changes the document as it changes its outline. -/
theorem insertLines_follows (hk : known ≤ host.document.nextHandle) (hhk : h.number < known)
    (side : Side) (hkind : op.kind = kindOf side) {mid : Host}
    (hwork : (insertLines rules (fun text => Host.insertParagraph text h side)
      (lines op.content.toList)).runOn host = (.ok (), mid))
    (hflush : ∃ n, Host.flush.runOn mid = (.ok n, after)) :
    op.Fits host.document.styles rules ∧ Follows rules known op h host after := by
  rw [Execution.insertLines_eq_insertEach] at hwork
  obtain ⟨items, news, hitems, hnews, rfl⟩ :=
    (Execution.insertEach_flush side (dress_line rules) hh hl).1 ⟨mid, hwork, hflush⟩
  have hentries := entries_of_lines (fun _ h => h) hk hitems hnews
  refine ⟨(fits_of_kindOf hkind).2 ⟨writable_of_items hitems,
    knows_of_news (linesFrom_ne_nil _ _) hitems hnews⟩, ?_, ?_, ?_, ?_, ?_⟩
  · exact hh.flushed (Execution.wellFormed_inserting hh.wellFormed hl hnews)
  · simp
  · intro x hx
    have hstays : x ∈ (host.document.rewriteAt h (·.beside side news)).body.listed :=
      Document.mem_listed_rewriteAt hx fun p _ hp hxh => by
        cases side <;> simp [Paragraph.beside, hp, hxh]
    simpa using hstays
  · simp
  · rw [← Document.outline_rewriteAt hhk fun p _ _ => edit_of_kindOf hkind hentries]
    exact Document.outline_congr Execution.body_inserting

/-- Lines that fit are inserted. -/
theorem insertLines_of_fits (side : Side) (hkind : op.kind = kindOf side)
    (hf : op.Fits host.document.styles rules) :
    ∃ mid after, (insertLines rules (fun text => Host.insertParagraph text h side)
      (lines op.content.toList)).runOn host = (.ok (), mid) ∧
        ∃ n, Host.flush.runOn mid = (.ok n, after) := by
  obtain ⟨hw, hs⟩ := (fits_of_kindOf hkind).1 hf
  obtain ⟨items, hitems⟩ := @exists_items rules _ hw
  obtain ⟨news, hnews⟩ := exists_news hs hitems host.document.nextHandle
  obtain ⟨mid, hwork, hflush⟩ := (Execution.insertEach_flush side (dress_line rules) hh hl).2
    ⟨items, news, hitems, hnews, rfl⟩
  rw [← Execution.insertLines_eq_insertEach] at hwork
  exact ⟨mid, _, hwork, hflush⟩

end

/-- Replacing the text of a paragraph changes the document as it changes its outline. -/
theorem replace_follows (hh : host.Ready) (hl : h ∈ host.document.body.listed)
    (hhk : h.number < known) (hkind : op.kind = .replace)
    (hflush : ∃ n, Host.flush.runOn (host.queueing host.document [.setText h op.content]) =
      (.ok n, after)) :
    op.Fits host.document.styles rules ∧ Follows rules known op h host after := by
  obtain ⟨p, hp, rfl⟩ := Document.mem_listed_iff.1 hl
  obtain ⟨d, hbecomes, rfl⟩ := hh.flush_queueing.1 hflush
  obtain ⟨hw, rfl⟩ := (Document.becomes_setText hh.wellFormed hp _).1 hbecomes
  have hedit := Effect.isEdit_textContent p op.content.toList
  refine ⟨by simpa [Operation.Fits, hkind] using hw, hh.flushed (hh.wellFormed.put hp hedit),
    le_rfl, ?_, rfl, ?_⟩
  · intro x hx
    exact Document.mem_listed_rewriteAt hx fun q _ _ hxh => by simp [hxh]
  · refine Document.outline_rewriteAt hhk fun q hq he => ?_
    obtain rfl := hh.wellFormed.eq_of_handle_eq hq hp he
    simp [edit, hkind, Paragraph.entry, Effect.shownText_textContent hw]

/-- What has been queued for an operation, and made, changes the document as it changes its
outline. -/
theorem performOperation_follows (hh : host.Ready) (hl : h ∈ host.document.body.listed)
    (hk : known ≤ host.document.nextHandle) (hhk : h.number < known) {mid : Host}
    (hwork : (performOperation rules op h).runOn host = (.ok (), mid))
    (hflush : ∃ n, Host.flush.runOn mid = (.ok n, after)) :
    op.Fits host.document.styles rules ∧ Follows rules known op h host after := by
  unfold performOperation at hwork
  split at hwork
  · next hkind =>
    rw [Host.runOn_queue] at hwork
    obtain rfl := (Prod.mk.inj hwork).2
    exact replace_follows hh hl hhk hkind hflush
  · next hkind => exact insertLines_follows hh hl hk hhk .after hkind hwork hflush
  · next hkind => exact insertLines_follows hh hl hk hhk .before hkind hwork hflush

/-- An operation that fits is carried out. -/
theorem performOperation_of_fits (hh : host.Ready) (hl : h ∈ host.document.body.listed)
    (hf : op.Fits host.document.styles rules) :
    ∃ mid after, (performOperation rules op h).runOn host = (.ok (), mid) ∧
      ∃ n, Host.flush.runOn mid = (.ok n, after) := by
  unfold performOperation
  split
  · next hkind =>
    obtain ⟨p, hp, rfl⟩ := Document.mem_listed_iff.1 hl
    have hw : isWritable op.content.toList = true := by simpa [Operation.Fits, hkind] using hf
    exact ⟨_, _, Host.runOn_queue _, hh.flush_queueing.2
      ⟨_, (Document.becomes_setText hh.wellFormed hp _).2 ⟨hw, rfl⟩, rfl⟩⟩
  · next hkind => exact insertLines_of_fits hh hl .after hkind hf
  · next hkind => exact insertLines_of_fits hh hl .before hkind hf

/-! ## A run -/

/-- The operation works on a paragraph that was found. -/
def Mapping.Finds (snapshot : Snapshot) (m : Mapping) (op : Operation) (h : Handle) : Prop :=
  (snapshot.blocks.lookup op.target).isSome ∧ m.handle? op = some h

theorem target_eq_ok {p : Passage} :
    (snapshot.target m op).runOn host = (.ok p, after) ↔
      (snapshot.blocks.lookup op.target).isSome ∧ m.matched.lookup op.target = some p ∧
        after = host := by
  unfold target
  cases snapshot.blocks.lookup op.target with
  | none => simp
  | some block =>
    cases m.matched.lookup op.target with
    | none => cases hb : excerpt block <;> simp [runOn_bind, hb, lift]
    | some q => simp [eq_comm]

/-- An operation is carried out by queueing its effects on the paragraph that was found and making
them all. -/
theorem runOperation_eq_ok {index : Nat} :
    (runOperation rules snapshot m index op).runOn host = (.ok (), after) ↔
      ∃ h, m.Finds snapshot op h ∧
        ∃ mid, (performOperation rules op h).runOn host = (.ok (), mid) ∧
          ∃ n, Host.flush.runOn mid = (.ok n, after) := by
  rw [runOperation, asOperation, tryCatch_eq_ok, bind_eq_ok]
  · simp only [target_eq_ok, Host.thenFlush_eq_ok]
    constructor
    · rintro ⟨p, _, ⟨hblock, hp, rfl⟩, hwork⟩
      exact ⟨p.handle, ⟨hblock, by simp [Mapping.handle?, hp]⟩, hwork⟩
    · rintro ⟨h, ⟨hblock, hh⟩, hwork⟩
      obtain ⟨p, hp, rfl⟩ := Option.map_eq_some_iff.1 hh
      exact ⟨p, host, ⟨hblock, hp, rfl⟩, hwork⟩
  · rintro (failure | fault) host
    · simp [runOn_bind, Host.discard]
    · by_cases hf : fault.family = .host <;> simp [hf, runOn_bind, Host.discard]

/-- Every paragraph that was found is an old paragraph of the document. -/
def Mapping.Sound (m : Mapping) (known : Nat) (d : Document) : Prop :=
  ∀ op h, m.handle? op = some h → h ∈ d.body.listed ∧ h.number < known

theorem Follows.sound (hf : Follows rules known op h host after)
    (hm : m.Sound known host.document) : m.Sound known after.document :=
  fun op h hop => ⟨hf.listed (hm op h hop).1, (hm op h hop).2⟩

/-- Operations that succeed fit, find their paragraphs, and change the document as they change its
outline. -/
theorem runOperations_follows {ops : List Operation} {index : Nat} (hh : host.Ready)
    (hk : known ≤ host.document.nextHandle) (hm : m.Sound known host.document)
    (hrun : (runOperations rules snapshot m index ops).runOn host = (.ok (), after)) :
    (∀ op ∈ ops, op.Fits host.document.styles rules ∧ ∃ h, m.Finds snapshot op h) ∧
      after.document.outline known =
        editOutlines (host.document.styles.shownAs rules.normalStyle) m
          (host.document.outline known) ops := by
  induction ops generalizing host index with
  | nil =>
    obtain rfl := (Prod.mk.inj hrun).2
    exact ⟨by simp, rfl⟩
  | cons op rest ih =>
    obtain ⟨_, mid, hop, hrest⟩ := bind_eq_ok.1 hrun
    obtain ⟨h, hfinds, _, hwork, hflush⟩ := runOperation_eq_ok.1 hop
    obtain ⟨hl, hhk⟩ := hm op h hfinds.2
    obtain ⟨hfits, hstep⟩ := performOperation_follows hh hl hk hhk hwork hflush
    obtain ⟨hall, houtline⟩ := ih hstep.ready (hk.trans hstep.nextHandle) (hstep.sound hm) hrest
    rw [hstep.styles] at hall houtline
    refine ⟨List.forall_mem_cons.2 ⟨⟨hfits, h, hfinds⟩, hall⟩, ?_⟩
    rw [houtline, hstep.outline]
    simp [editOutlines, hfinds.2]

/-- Operations that fit and find their paragraphs succeed. -/
theorem runOperations_of_fits {ops : List Operation} (index : Nat) (hh : host.Ready)
    (hk : known ≤ host.document.nextHandle) (hm : m.Sound known host.document)
    (hfits : ∀ op ∈ ops, op.Fits host.document.styles rules ∧ ∃ h, m.Finds snapshot op h) :
    ∃ after, (runOperations rules snapshot m index ops).runOn host = (.ok (), after) := by
  induction ops generalizing host index with
  | nil => exact ⟨host, rfl⟩
  | cons op rest ih =>
    obtain ⟨⟨hop, h, hfinds⟩, hrest⟩ := List.forall_mem_cons.1 hfits
    obtain ⟨hl, hhk⟩ := hm op h hfinds.2
    obtain ⟨_, mid, hwork, hflush⟩ := performOperation_of_fits hh hl hop
    obtain ⟨_, hstep⟩ := performOperation_follows hh hl hk hhk hwork hflush
    obtain ⟨after, hafter⟩ := @ih _ (index + 1) hstep.ready (hk.trans hstep.nextHandle)
      (hstep.sound hm) (hstep.styles ▸ hrest)
    exact ⟨after, bind_eq_ok.2 ⟨(), mid, runOperation_eq_ok.2 ⟨h, hfinds, _, hwork, hflush⟩, hafter⟩⟩

/-! ## The paragraphs of blocks -/

theorem mem_of_findFor {block : Block} {text : String} {free : List Passage} {p : Passage}
    (hp : findFor rules block text free = some p) : p ∈ free := by
  unfold findFor at hp
  split at hp
  · next hq => exact Option.some.inj hp ▸ List.mem_of_find?_eq_some hq
  · exact List.mem_of_find?_eq_some hp

theorem mem_putPassage {id : String} {p : Passage} {matched : List (String × Passage)}
    {e : String × Passage} (he : e ∈ putPassage id p matched) : e.2 = p ∨ e ∈ matched := by
  induction matched with
  | nil => exact Or.inl (by simp_all [putPassage])
  | cons first rest ih =>
    rw [putPassage] at he
    split at he
    · rcases List.mem_cons.1 he with rfl | he
      · exact Or.inl rfl
      · exact Or.inr (List.mem_cons_of_mem _ he)
    · rcases List.mem_cons.1 he with rfl | he
      · exact Or.inr List.mem_cons_self
      · exact (ih he).imp_right (List.mem_cons_of_mem _)

/-- A block is found in the document, if it is found at all. -/
theorem matched_step {passages : List Passage} {listed : Json} {m m' : Mapping}
    (hm : ∀ e ∈ m.matched, e.2 ∈ passages)
    (hstep : Mapping.step rules snapshot (candidates passages) m listed = .ok m') :
    ∀ e ∈ m'.matched, e.2 ∈ passages := by
  have hfree : ∀ p ∈ m.free (candidates passages), p ∈ passages := fun p hp =>
    List.mem_of_mem_filter (List.mem_of_mem_filter hp)
  obtain ⟨_, _, hstep⟩ := except_bind_eq_ok.1 hstep
  split at hstep
  · split at hstep
    · obtain rfl := Except.ok.inj hstep
      unfold Mapping.add
      split
      · next p hp =>
        intro e he
        rcases mem_putPassage he with he | he
        · exact he ▸ hfree p (mem_of_findFor hp)
        · exact hm e he
      · exact hm
    · unfold Mapping.addUntyped at hstep
      split at hstep
      · cases hstep
      · split at hstep
        · exact Except.ok.inj hstep ▸ hm
        · cases hstep
  · exact Except.ok.inj hstep ▸ hm

theorem matched_mapping {passages : List Passage}
    (hm : snapshot.mapping rules passages = .ok m) : ∀ e ∈ m.matched, e.2 ∈ passages := by
  have key : ∀ (listed : List Json) (start : Mapping), (∀ e ∈ start.matched, e.2 ∈ passages) →
      listed.foldlM (Mapping.step rules snapshot (candidates passages)) start = .ok m →
      ∀ e ∈ m.matched, e.2 ∈ passages := by
    intro listed
    induction listed with
    | nil => exact fun start hs hm => Except.ok.inj hm ▸ hs
    | cons id rest ih =>
      intro start hs hm
      rw [List.foldlM_cons] at hm
      obtain ⟨mid, hstep, hrest⟩ := except_bind_eq_ok.1 hm
      exact ih mid (matched_step hs hstep) hrest
  exact key _ {} (by simp) hm

/-- What is found for blocks are paragraphs of the document. -/
theorem sound_mapping {d : Document} (hd : d.WellFormed)
    (hm : snapshot.mapping rules d.passages = .ok m) : m.Sound d.nextHandle d := by
  intro op h hop
  obtain ⟨q, hq, rfl⟩ := Option.map_eq_some_iff.1 hop
  obtain ⟨first, rest, hsplit, _⟩ := List.lookup_eq_some_iff.1 hq
  have hq := matched_mapping hm (op.target, q) (by simp [hsplit])
  obtain ⟨⟨p, index⟩, hp, rfl⟩ := List.mem_map.1 hq
  have hlisted : p.handle ∈ d.body.listed :=
    Document.mem_listed_iff.2 ⟨p, (List.mem_zipIdx' hp).2 ▸ List.getElem_mem _, rfl⟩
  exact ⟨hlisted, hd.given _ (Document.mem_handles_of_mem_body
    ((Forest.listed_sublist_handles _).subset hlisted))⟩

theorem run_eq_ok {plan : BlockPlan} (ha : host.Answers) :
    (run rules snapshot plan).runOn host = (.ok (), after) ↔
      ∃ m, snapshot.mapping rules host.document.passages = .ok m ∧
        (runOperations rules snapshot m 0 plan.operations).runOn host = (.ok (), after) := by
  have hensure : Anchor.ensureHost.runOn host = (.ok (), host) := by
    simp [Anchor.ensureHost, runOn_bind, ha.isOpen]
  rw [run, runOn_bind, hensure]
  simp only [bind_eq_ok, rematch, ha.paragraphs, Prod.mk.injEq, Except.ok.injEq, lift_eq_ok]
  constructor
  · rintro ⟨m, mid, ⟨_, _, ⟨rfl, rfl⟩, hm, rfl⟩, hops⟩
    exact ⟨m, hm, hops⟩
  · rintro ⟨m, hm, hops⟩
    exact ⟨m, host, ⟨_, _, ⟨rfl, rfl⟩, hm, rfl⟩, hops⟩

theorem outline_nextHandle {d : Document} (hd : d.WellFormed) :
    d.outline d.nextHandle =
      d.paragraphs.map fun p => ⟨some p.handle, p.style, p.alignment, p.content.shownText⟩ := by
  refine List.map_congr_left fun p hp => ?_
  have := hd.given _ (Document.mem_handles_of_mem_body (Forest.mem_handles_of_mem_paragraphs hp))
  simp [Paragraph.entry, this]

/-- A block plan edits the list of paragraphs: each old paragraph gives way to the lines inserted
before it, itself with its last text, and the lines inserted after it.  New lines show the normal
style as the document names it.  Operations on different paragraphs may change places. -/
theorem run_refines_list_edit (rules : Rules) (snapshot : Snapshot) (plan : BlockPlan)
    (host after : Host) (hh : host.Ready)
    (hrun : (run rules snapshot plan).runOn host = (.ok (), after)) :
    ∃ m, snapshot.mapping rules host.document.passages = .ok m ∧
      (∀ op ∈ plan.operations, ∃ h ∈ host.document.listed, m.handle? op = some h) ∧
      after.document.outline host.document.nextHandle =
        (host.document.paragraphs.flatMap fun p =>
          edited (host.document.styles.shownAs rules.normalStyle) m plan.operations
            ⟨some p.handle, p.style, p.alignment, p.content.shownText⟩) ∧
      ∀ plan' : BlockPlan, plan'.operations.Perm plan.operations →
        (∀ h, (plan'.operations.filter fun op => m.handle? op == some h) =
          plan.operations.filter fun op => m.handle? op == some h) →
        ∃ after', (run rules snapshot plan').runOn host = (.ok (), after') ∧
          after'.document.outline host.document.nextHandle =
            after.document.outline host.document.nextHandle := by
  obtain ⟨m, hm, hops⟩ := (run_eq_ok hh.toAnswers).1 hrun
  have hsound := sound_mapping hh.wellFormed hm
  obtain ⟨hfits, houtline⟩ := runOperations_follows hh le_rfl hsound hops
  have hedited : ∀ ops : List Operation,
      editOutlines (host.document.styles.shownAs rules.normalStyle) m
          (host.document.outline host.document.nextHandle) ops =
        host.document.paragraphs.flatMap fun p =>
          edited (host.document.styles.shownAs rules.normalStyle) m ops
            ⟨some p.handle, p.style, p.alignment, p.content.shownText⟩ := by
    intro ops
    rw [outline_nextHandle hh.wellFormed, editOutlines_eq (by simp), List.flatMap_map]
  refine ⟨m, hm, fun op hop => ?_, houtline.trans (hedited _), fun plan' hperm hsame => ?_⟩
  · obtain ⟨_, h, hfinds⟩ := hfits op hop
    exact ⟨h, (hsound op h hfinds.2).1, hfinds.2⟩
  · obtain ⟨after', hafter⟩ := runOperations_of_fits 0 hh le_rfl hsound
      fun op hop => hfits op (hperm.subset hop)
    obtain ⟨_, houtline'⟩ := runOperations_follows hh le_rfl hsound hafter
    refine ⟨after', (run_eq_ok hh.toAnswers).2 ⟨m, hm, hafter⟩, ?_⟩
    rw [houtline, houtline', hedited, hedited]
    exact List.flatMap_congr fun p _ => edited_congr (hsame p.handle)

/-- A document of two paragraphs, the first one in a cell. -/
def twoParagraphs : Document where
  body := .cons .table (.single .row (.single .cell
      (.single (.paragraph ⟨0⟩ "Normal" none) (.single (.run "one" {}) .nil))))
    (.single (.paragraph ⟨1⟩ "Title" (some .center)) (.single (.run "two" {}) .nil))
  nextHandle := 2

/-- Two insertions on either side of the first paragraph, with a replacement among them. -/
def mixedPlan : BlockPlan :=
  ⟨[⟨.insertAfter, "b1", "a\r\nb", ""⟩, ⟨.insertBefore, "b1", "c", ""⟩,
    ⟨.replace, "b1", "uno\r", ""⟩, ⟨.insertBefore, "b2", "d", ""⟩,
    ⟨.insertAfter, "b1", "e", ""⟩, ⟨.insertBefore, "b1", "f", ""⟩]⟩

theorem run_refines_list_edit_mixed :
    ∃ after, (run .standard (ofPassages .standard "now" twoParagraphs.passages) mixedPlan).runOn
        { document := twoParagraphs } = (.ok (), after) ∧
      after.document.outline 2 =
        [⟨none, "Normal", none, ['c']⟩, ⟨none, "Normal", none, ['f']⟩,
          ⟨some ⟨0⟩, "Normal", none, "uno\n".toList⟩, ⟨none, "Normal", none, ['e']⟩,
          ⟨none, "Normal", none, ['a']⟩, ⟨none, "Normal", none, ['b']⟩,
          ⟨none, "Normal", none, ['d']⟩, ⟨some ⟨1⟩, "Title", some .center, "two".toList⟩] := by
  have hready : Host.Ready { document := twoParagraphs } := ⟨⟨rfl, rfl⟩, rfl, by decide⟩
  obtain ⟨after, hrun⟩ : ∃ after,
      (run .standard (ofPassages .standard "now" twoParagraphs.passages) mixedPlan).runOn
        { document := twoParagraphs } = (.ok (), after) := ⟨_, rfl⟩
  obtain ⟨m, hm, _, houtline, _⟩ := run_refines_list_edit .standard _ mixedPlan _ after hready hrun
  obtain rfl := Except.ok.inj (hm.symm.trans rfl)
  exact ⟨after, hrun, houtline.trans (by decide)⟩

end Snapshot

end Redline
