import Redline.Command.Execute

/-!
# Commands and files

A command reads files, writes files, and makes folders.  What is read changes nothing.  A file that
is written holds what has been written, and every other file holds what it held; a folder that is
made changes no file.  So of any piece of work it can be told from its parts which files it leaves
alone.

## Main definitions

* `Command.Work.runOn` — does a piece of work in a world.
* `Command.HoldsValue`, `Command.GivesRules`, `Command.GivesSnapshot` — what is read from files.
* `Command.Spares` — a piece of work leaves all files alone but those of some paths.
-/

namespace Redline

/-! ## Files -/

namespace Workspace

variable {w w' : Workspace} {p q : Path} {path : String} {content : Content}

/-- What the file with a path holds. -/
def content? (w : Workspace) (p : Path) : Option Content := w.files.lookup p

theorem lookup_putFile_self (p : Path) (content : Content) (files : List (Path × Content)) :
    (putFile p content files).lookup p = some content := by
  induction files with
  | nil => simp [putFile]
  | cons file rest ih =>
    obtain ⟨q, old⟩ := file
    rw [putFile]
    by_cases hq : q = p
    · simp [hq]
    · have hne : (p == q) = false := beq_eq_false_iff_ne.2 (Ne.symm hq)
      simp [hq, List.lookup_cons, hne, ih]

theorem lookup_putFile_of_ne (hq : q ≠ p) (content : Content) (files : List (Path × Content)) :
    (putFile p content files).lookup q = files.lookup q := by
  have hqp : (q == p) = false := beq_eq_false_iff_ne.2 hq
  induction files with
  | nil => simp [putFile, List.lookup_cons, hqp]
  | cons file rest ih =>
    obtain ⟨r, old⟩ := file
    rw [putFile]
    by_cases hr : r = p
    · simp [hr, List.lookup_cons, hqp]
    · simp [hr, List.lookup_cons, ih]

theorem content?_write (h : w.write? path content = some w') :
    w'.content? (.ofText path) = some content := by
  simp only [write?, Option.ite_none_right_eq_some, Option.some.injEq] at h
  obtain ⟨-, rfl⟩ := h
  exact lookup_putFile_self _ _ _

theorem content?_write_of_ne (h : w.write? path content = some w') (hp : p ≠ .ofText path) :
    w'.content? p = w.content? p := by
  simp only [write?, Option.ite_none_right_eq_some, Option.some.injEq] at h
  obtain ⟨-, rfl⟩ := h
  exact lookup_putFile_of_ne hp _ _

theorem content?_makeFolder (h : w.makeFolder? path = some w') (p : Path) :
    w'.content? p = w.content? p := by
  simp only [makeFolder?, Option.ite_none_left_eq_some, Option.some.injEq] at h
  obtain ⟨-, rfl⟩ := h
  rfl

end Workspace

namespace Command

variable {α β : Type} {reader : PackReader} {stamp : Stamp} {rules : Rules}
  {world after : World} {path : String} {path? : Option String} {text : String} {value : Json} {snapshot : Option Snapshot} {d : Document}
  {host : Host}

/-! ## Work -/

/-- Does a piece of work in a world. -/
def Work.runOn (work : Work α) (world : World) : Except Stop α × World :=
  StateT.run (ExceptT.run work) world

namespace Work

@[simp] theorem runOn_pure (a : α) : (pure a : Work α).runOn world = (.ok a, world) := rfl

@[simp] theorem runOn_throw (stop : Stop) :
    (throw stop : Work α).runOn world = (.error stop, world) := rfl

@[simp] theorem runOn_get : (get : Work World).runOn world = (.ok world, world) := rfl

@[simp] theorem runOn_set (w : World) : (set w : Work PUnit).runOn world = (.ok ⟨⟩, w) := rfl

theorem runOn_bind (work : Work α) (next : α → Work β) :
    (work >>= next).runOn world =
      match work.runOn world with
      | (.ok a, mid) => (next a).runOn mid
      | (.error stop, mid) => (.error stop, mid) := by
  simp only [runOn, ExceptT.run_bind, StateT.run_bind]
  rcases StateT.run (ExceptT.run work) world with ⟨_ | a, mid⟩ <;> rfl

theorem bind_eq_ok {work : Work α} {next : α → Work β} {b : β} :
    (work >>= next).runOn world = (.ok b, after) ↔
      ∃ a mid, work.runOn world = (.ok a, mid) ∧ (next a).runOn mid = (.ok b, after) := by
  rw [runOn_bind]
  rcases work.runOn world with ⟨_ | a, mid⟩ <;> simp [and_assoc]

theorem lift_eq_ok {value : Except Fault α} {a : α} :
    (lift value).runOn world = (.ok a, after) ↔ value = .ok a ∧ after = world := by
  cases value <;> simp [lift, eq_comm]

@[simp] theorem runOn_putLine (line : String) :
    (putLine line).runOn world = (.ok (), { world with output := world.output ++ line ++ "\n" }) :=
  rfl

theorem change_eq_ok {changed : Workspace → Option Workspace} :
    (change changed).runOn world = (.ok (), after) ↔
      ∃ w, changed world.workspace = some w ∧ after = { world with workspace := w } := by
  rw [change, runOn_bind]
  cases h : changed world.workspace <;> simp [h, eq_comm]

end Work

open Work

/-! ## Reading -/

/-- The file with a path holds a value. -/
def HoldsValue (w : Workspace) (path : String) (value : Json) : Prop :=
  ∃ text, w.read? path = some (.text text) ∧ Json.parse text.toList = .ok value

/-- The rules that a command works with: those of a file, if one is named. -/
def GivesRules (reader : PackReader) (w : Workspace) : Option String → Rules → Prop
  | some path, rules => ∃ text, w.read? path = some (.text text) ∧ rulesOf reader text = .ok rules
  | none, rules => rules = .standard

/-- The snapshot that a command works with: that of a file, if one is named. -/
def GivesSnapshot (stamp : Stamp) (w : Workspace) : Option String → Option Snapshot → Prop
  | some path, snapshot => ∃ value s, HoldsValue w path value ∧
      Snapshot.ofJson stamp.epoch value = .ok s ∧ snapshot = some s
  | none, snapshot => snapshot = none

theorem readText_eq_ok : (readText path).runOn world = (.ok text, after) ↔
    world.workspace.read? path = some (.text text) ∧ after = world := by
  rw [readText, runOn_bind, runOn_get]
  rcases h : world.workspace.read? path with _ | d | held <;> simp [h, lift, eq_comm]

theorem readDocument_eq_ok : (readDocument path).runOn world = (.ok d, after) ↔
    world.workspace.read? path = some (.document d) ∧ after = world := by
  rw [readDocument, runOn_bind, runOn_get]
  rcases h : world.workspace.read? path with _ | held | text <;> simp [h, eq_comm]

theorem readValue_eq_ok : (readValue path).runOn world = (.ok value, after) ↔
    HoldsValue world.workspace path value ∧ after = world := by
  simp only [readValue, bind_eq_ok, readText_eq_ok, HoldsValue]
  constructor
  · rintro ⟨text, _, ⟨hread, rfl⟩, hvalue⟩
    cases hparse : Json.parse text.toList with
    | ok v =>
      simp only [hparse, runOn_pure, Prod.mk.injEq, Except.ok.injEq] at hvalue
      exact ⟨⟨text, hread, hvalue.1 ▸ hparse⟩, hvalue.2.symm⟩
    | error problem => cases problem <;> simp [hparse, lift] at hvalue
  · rintro ⟨⟨text, hread, hparse⟩, rfl⟩
    exact ⟨text, after, ⟨hread, rfl⟩, by simp [hparse]⟩

theorem readRules_eq_ok : (readRules reader path?).runOn world = (.ok rules, after) ↔
    GivesRules reader world.workspace path? rules ∧ after = world := by
  cases path? with
  | none => simp [readRules, GivesRules, eq_comm]
  | some path =>
    simp only [readRules, bind_eq_ok, readText_eq_ok, lift_eq_ok, GivesRules]
    constructor
    · rintro ⟨text, _, ⟨hread, rfl⟩, hrules, hsame⟩
      exact ⟨⟨text, hread, hrules⟩, hsame⟩
    · rintro ⟨⟨text, hread, hrules⟩, hsame⟩
      exact ⟨text, world, ⟨hread, rfl⟩, hrules, hsame⟩

theorem readSnapshot_eq_ok : (readSnapshot stamp path?).runOn world = (.ok snapshot, after) ↔
    GivesSnapshot stamp world.workspace path? snapshot ∧ after = world := by
  cases path? with
  | none => simp [readSnapshot, GivesSnapshot, eq_comm]
  | some path =>
    simp only [readSnapshot, bind_eq_ok, readValue_eq_ok, lift_eq_ok, GivesSnapshot, runOn_pure,
      Prod.mk.injEq, Except.ok.injEq]
    constructor
    · rintro ⟨value, _, ⟨hread, rfl⟩, s, _, ⟨hs, rfl⟩, rfl, hsame⟩
      exact ⟨⟨value, s, hread, hs, rfl⟩, hsame.symm⟩
    · rintro ⟨⟨value, s, hread, hs, rfl⟩, hsame⟩
      exact ⟨value, world, ⟨hread, rfl⟩, s, world, ⟨hs, rfl⟩, rfl, hsame.symm⟩

theorem onDocument_eq_ok {work : Editing α} {a : α} :
    (onDocument d work).runOn world = (.ok (a, host), after) ↔
      work.runOn (Host.ofDocument d) = (.ok a, host) ∧ after = world := by
  rw [onDocument]
  rcases hrun : work.runOn (Host.ofDocument d) with ⟨mishap | b, mid⟩ <;>
    simp [eq_comm, and_assoc]

/-! ## What is left alone -/

/-- However the work ends, each file holds what it held, unless it has one of the paths. -/
def Spares (paths : List Path) (work : Work α) : Prop :=
  ∀ world, ∀ p ∉ paths, (work.runOn world).2.workspace.content? p = world.workspace.content? p

namespace Spares

variable {paths more : List Path} {work : Work α}

theorem mono (h : Spares paths work) (hp : paths ⊆ more) : Spares more work :=
  fun world p hmore => h world p fun hmem => hmore (hp hmem)

theorem pure (a : α) : Spares paths (pure a : Work α) := fun _ _ _ => rfl

theorem throw (stop : Stop) : Spares paths (throw stop : Work α) := fun _ _ _ => rfl

theorem get : Spares paths (get : Work World) := fun _ _ _ => rfl

theorem bind {next : α → Work β} (hw : Spares paths work) (hn : ∀ a, Spares paths (next a)) :
    Spares paths (work >>= next) := by
  intro world p hp
  have hfirst := hw world p hp
  rw [runOn_bind]
  rcases hrun : work.runOn world with ⟨stop | a, mid⟩
  · rw [hrun] at hfirst
    exact hfirst
  · rw [hrun] at hfirst
    exact (hn a mid p hp).trans hfirst

theorem lift (value : Except Fault α) : Spares paths (Command.lift value) := by
  cases value with
  | error fault => exact .throw _
  | ok a => exact .pure a

theorem putLine (line : String) : Spares paths (putLine line) := fun _ _ _ => rfl

theorem change {changed : Workspace → Option Workspace}
    (h : ∀ w w', changed w = some w' → ∀ p ∉ paths, w'.content? p = w.content? p) :
    Spares paths (change changed) := by
  intro world p hp
  rw [Command.change, runOn_bind, runOn_get]
  cases hchanged : changed world.workspace with
  | none => simp [hchanged]
  | some w => simpa [hchanged] using h _ _ hchanged p hp

theorem writeFile (path : String) (content : Content) :
    Spares [.ofText path] (writeFile path content) :=
  .change fun _ _ h _ hp => Workspace.content?_write_of_ne h (by simpa using hp)

theorem makeFolder (path : String) : Spares paths (Command.change (·.makeFolder? path)) :=
  .change fun _ _ h p _ => Workspace.content?_makeFolder h p

theorem readText (path : String) : Spares paths (readText path) := by
  refine .bind .get fun world => ?_
  split
  · exact .pure _
  · exact .lift _
  · exact .throw _

theorem readValue (path : String) : Spares paths (readValue path) := by
  refine .bind (.readText path) fun text => ?_
  split
  · exact .pure _
  · exact .throw _
  · exact .lift _

theorem readDocument (path : String) : Spares paths (readDocument path) := by
  refine .bind .get fun world => ?_
  split
  · exact .pure _
  · exact .throw _

theorem readRules (reader : PackReader) (path? : Option String) :
    Spares paths (readRules reader path?) := by
  cases path? with
  | none => exact .pure _
  | some path => exact .bind (.readText path) fun _ => .lift _

theorem readSnapshot (stamp : Stamp) (path? : Option String) :
    Spares paths (readSnapshot stamp path?) := by
  cases path? with
  | none => exact .pure _
  | some path => exact .bind (.readValue path) fun _ => .bind (.lift _) fun _ => .pure _

theorem onDocument (d : Document) (work : Editing α) : Spares paths (onDocument d work) := by
  rw [Command.onDocument]
  split
  · exact .pure _
  · exact .throw _

end Spares

end Command

end Redline
