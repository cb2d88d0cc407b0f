import Mathlib.Data.List.Forall2
import TagCatalog.Proofs.Json.Number
import TagCatalog.Proofs.Json.Token

/-!
# Reading Back Printed Documents

A value without floating-point numbers is read as the document that it was printed as.

The reader is a machine with a stack, and a value inside a list or an object is read with all
that is open around it. So what a piece of text is read as has to be said for every stack:
`Denotes` is that the machine, wherever a value may come, completes this very document.

Lists and objects are alike in how they are taken apart. There is a mark, entries with a comma
between each two, and another mark, and behind each entry the machine is ready for a comma or
for the end. `Enclosure` is what the two have in common, with the laws that the machine meets,
and `Enclosure.denotes` puts a list or an object together from its entries. Blanks may stand in
front of every entry and in front of the last mark, so the same argument serves text without
any blanks and text over several lines.

Floating-point numbers are left out, because what is printed of them is no more than enough to
tell them apart, and a number that is not finite is printed as a name.

## Main definitions

* `Document.Denotes`: A text that is read as a document wherever a value may come.
* `Document.Enclosure`: A list or an object, as it is read.
* `Value.IsWhole`: A value in which all numbers are whole.

## Theorems

* `denotes_word`, `denotes_text`: Single values.
* `Enclosure.denotes`: Lists and objects.
* `denotes_compact`, `denotes_prettyAt`: Printed values.
* `parse?_compact`, `parse?_pretty`: Printed values are read back.
-/

namespace TagCatalog

namespace Json

open Text Token

namespace Document

/-- Go on with some tokens. -/
def run? (state : State) (tokens : List Token) : Option State := tokens.foldlM step? state

theorem run?_cons {state state' : State} {t : Token} (h : step? state t = some state')
    (tokens : List Token) : run? state (t :: tokens) = run? state' tokens := by
  rw [run?, List.foldlM_cons, h]
  rfl

theorem run?_singleton (state : State) (t : Token) : run? state [t] = step? state t := by
  rw [run?, List.foldlM_cons]
  cases step? state t <;> rfl

theorem run?_append {state state' : State} {tokens : List Token}
    (h : run? state tokens = some state') (tokens' : List Token) :
    run? state (tokens ++ tokens') = run? state' tokens' := by
  rw [run?, List.foldlM_append]
  exact (congrArg (· >>= fun s => tokens'.foldlM step? s) h).trans rfl

/-- Tokens that are read as a document wherever a value may come. -/
def Makes (tokens : List Token) (d : Document) : Prop :=
  ∀ stack, ∀ e ∈ [Expectation.value, .firstValue], run? ⟨stack, e⟩ tokens = complete d stack

/-- A text that is read as a document wherever a value may come. -/
def Denotes (text : List Char) (d : Document) : Prop :=
  ∃ tokens, ScansAs text tokens ∧ Makes tokens d

/-- Blanks as they are printed. -/
def IsBlanks (cs : List Char) : Prop := ∀ c ∈ cs, c = ' ' ∨ c = '\n'

theorem denotes_blanks {blanks text : List Char} {d : Document} (hblanks : IsBlanks blanks)
    (h : Denotes text d) : Denotes (blanks ++ text) d := by
  rcases h with ⟨tokens, hscan, hmakes⟩
  exact ⟨tokens, scansAs_blanks hblanks hscan, hmakes⟩

theorem denotes_word {cs : List Char} {d : Document} (hne : cs ≠ [])
    (hcs : ∀ c ∈ cs, isWordChar c = true) (h : ofWord? cs = some d) : Denotes cs d := by
  refine ⟨[.word cs], scansAs_word hne hcs, fun stack e he => ?_⟩
  have hvalue : value? stack (.word cs) = complete d stack := by
    rw [value?, h, Option.bind_some]
  rw [run?_singleton, ← hvalue]
  simp only [List.mem_cons, List.not_mem_nil, or_false] at he
  rcases he with rfl | rfl <;> rfl

theorem denotes_text (s : String) : Denotes (quoted s) (.text (some s)) := by
  refine ⟨[.text (some s)], scansAs_quoted s, fun stack e he => ?_⟩
  rw [run?_singleton]
  simp only [List.mem_cons, List.not_mem_nil, or_false] at he
  rcases he with rfl | rfl <;> rfl

/-- A list or an object over its entries, as it is read. -/
structure Enclosure (ε : Type) where
  first : Char
  last : Char
  opening : Token
  closing : Token
  /-- What is open with some entries, last first. -/
  frame : List ε → Frame
  /-- What may come behind the first mark. -/
  begins : Expectation
  /-- What may come behind a comma. -/
  next : Expectation
  whole : List ε → Document
  first_mark : start? first = some ([opening], .between)
  last_mark : start? last = some ([closing], .between)
  last_breaks : isWordChar last = false
  opened : ∀ stack, ∀ e ∈ [Expectation.value, .firstValue],
    step? ⟨stack, e⟩ opening = some ⟨frame [] :: stack, begins⟩
  comma : ∀ entries stack,
    step? ⟨frame entries :: stack, .separator⟩ .comma = some ⟨frame entries :: stack, next⟩
  closed : ∀ entries stack,
    step? ⟨frame entries :: stack, .separator⟩ closing = complete (whole entries.reverse) stack
  empty : ∀ stack, step? ⟨frame [] :: stack, begins⟩ closing = complete (whole []) stack

namespace Enclosure

/-- A list over its items. -/
def array : Enclosure Document where
  first := '['
  last := ']'
  opening := .openArray
  closing := .closeArray
  frame := .array
  begins := .firstValue
  next := .value
  whole := .array
  first_mark := rfl
  last_mark := rfl
  last_breaks := rfl
  opened := by
    intro stack e he
    simp only [List.mem_cons, List.not_mem_nil, or_false] at he
    rcases he with rfl | rfl <;> rfl
  comma := fun _ _ => rfl
  closed := fun _ _ => rfl
  empty := fun _ => rfl

/-- An object over its members. -/
def object : Enclosure (Option String × Document) where
  first := '\x7b'
  last := '\x7d'
  opening := .openObject
  closing := .closeObject
  frame := .object
  begins := .firstName
  next := .name
  whole := .object
  first_mark := rfl
  last_mark := rfl
  last_breaks := rfl
  opened := by
    intro stack e he
    simp only [List.mem_cons, List.not_mem_nil, or_false] at he
    rcases he with rfl | rfl <;> rfl
  comma := fun _ _ => rfl
  closed := fun _ _ => rfl
  empty := fun _ => rfl

variable {ε : Type} (E : Enclosure ε)

/-- A text that is read as an entry. -/
def Adds (text : List Char) (entry : ε) : Prop :=
  ∃ tokens, ScansAs text tokens ∧ ∀ entries stack, ∀ e ∈ [E.begins, E.next],
    run? ⟨E.frame entries :: stack, e⟩ tokens =
      some ⟨E.frame (entry :: entries) :: stack, .separator⟩

theorem adds_blanks {blanks text : List Char} {entry : ε} (hblanks : IsBlanks blanks)
    (h : E.Adds text entry) : E.Adds (blanks ++ text) entry := by
  rcases h with ⟨tokens, hscan, hrun⟩
  exact ⟨tokens, scansAs_blanks hblanks hscan, hrun⟩

/-- The last mark, with blanks in front of it. -/
theorem scansAs_last {blanks : List Char} (hblanks : IsBlanks blanks) :
    ScansAs (blanks ++ [E.last]) [E.closing] :=
  scansAs_blanks hblanks (scansAs_mark E.last_mark scansAs_nil)

theorem breaks_last {blanks : List Char} (hblanks : IsBlanks blanks) :
    Breaks (blanks ++ [E.last]) := by
  cases blanks with
  | nil =>
    rintro c hc
    rw [List.nil_append, List.head?_cons, Option.mem_some_iff] at hc
    exact hc ▸ E.last_breaks
  | cons b r =>
    rintro c hc
    rw [List.cons_append, List.head?_cons, Option.mem_some_iff] at hc
    rcases hblanks b List.mem_cons_self with rfl | rfl <;> exact hc ▸ rfl

/-- Entries with a comma between each two, up to the last mark. -/
theorem scan_entries {blanks : List Char} (hblanks : IsBlanks blanks) {pieces : List (List Char)}
    {entries : List ε} (h : List.Forall₂ E.Adds pieces entries) (hne : pieces ≠ []) :
    ∃ tokens, ScansAs (joinWith ',' pieces ++ (blanks ++ [E.last])) tokens ∧
      ∀ done stack, ∀ e ∈ [E.begins, E.next],
        run? ⟨E.frame done :: stack, e⟩ tokens =
          complete (E.whole (done.reverse ++ entries)) stack := by
  induction h with
  | nil => exact absurd rfl hne
  | @cons piece entry pieces entries hadds hall ih =>
    rcases hadds with ⟨tokens, hscan, hrun⟩
    cases hall with
    | nil =>
      refine ⟨tokens ++ [E.closing], ?_, fun done stack e he => ?_⟩
      · rw [joinWith_singleton]
        exact scansAs_append hscan (E.scansAs_last hblanks) (E.breaks_last hblanks)
      · rw [run?_append (hrun done stack e he), run?_singleton, E.closed, List.reverse_cons]
    | @cons piece' entry' pieces' entries' hadds' hall' =>
      rcases ih (List.cons_ne_nil _ _) with ⟨tokens', hscan', hrun'⟩
      refine ⟨tokens ++ .comma :: tokens', ?_, fun done stack e he => ?_⟩
      · rw [joinWith_cons_cons, List.append_assoc, List.cons_append]
        exact scansAs_append hscan (scansAs_mark rfl hscan') fun c hc => by
          rw [List.head?_cons, Option.mem_some_iff] at hc
          exact hc ▸ rfl
      · rw [run?_append (hrun done stack e he), run?_cons (E.comma _ stack),
          hrun' _ stack E.next (by simp), List.reverse_cons, List.append_assoc,
          List.singleton_append]

/-- A list or an object is read as its entries. -/
theorem denotes {blanks : List Char} (hblanks : IsBlanks blanks) {pieces : List (List Char)}
    {entries : List ε} (h : List.Forall₂ E.Adds pieces entries) :
    Denotes (E.first :: joinWith ',' pieces ++ (blanks ++ [E.last])) (E.whole entries) := by
  by_cases hne : pieces = []
  · -- There is no comma and no entry.
    subst hne
    cases h
    refine ⟨[E.opening, E.closing], scansAs_mark E.first_mark (E.scansAs_last hblanks),
      fun stack e he => ?_⟩
    rw [run?_cons (E.opened stack e he), run?_singleton, E.empty]
  · rcases E.scan_entries hblanks h hne with ⟨tokens, hscan, hrun⟩
    refine ⟨E.opening :: tokens, scansAs_mark E.first_mark hscan, fun stack e he => ?_⟩
    rw [run?_cons (E.opened stack e he), hrun [] stack E.begins (by simp)]
    rfl

end Enclosure

/-- Whatever is read as a value is read as an item. -/
theorem adds_item {text : List Char} {d : Document} (h : Denotes text d) :
    Enclosure.array.Adds text d := by
  rcases h with ⟨tokens, hscan, hmakes⟩
  refine ⟨tokens, hscan, fun entries stack e he => ?_⟩
  rw [hmakes _ e (by simpa [Enclosure.array, or_comm] using he)]
  rfl

/-- A name, a colon and a value are read as a member. -/
theorem adds_member (name : String) {blanks text : List Char} {d : Document}
    (hblanks : IsBlanks blanks) (h : Denotes text d) :
    Enclosure.object.Adds (quoted name ++ ':' :: (blanks ++ text)) (some name, d) := by
  rcases denotes_blanks hblanks h with ⟨tokens, hscan, hmakes⟩
  refine ⟨[.text (some name)] ++ .colon :: tokens, ?_, fun entries stack e he => ?_⟩
  · exact scansAs_append (scansAs_quoted name) (scansAs_mark rfl hscan) fun c hc => by
      rw [List.head?_cons, Option.mem_some_iff] at hc
      exact hc ▸ rfl
  · have hname : step? ⟨Enclosure.object.frame entries :: stack, e⟩ (.text (some name)) =
        some ⟨.member entries (some name) :: stack, .colon⟩ := by
      simp only [Enclosure.object, List.mem_cons, List.not_mem_nil, or_false] at he
      rcases he with rfl | rfl <;> rfl
    have hcolon : step? ⟨Frame.member entries (some name) :: stack, .colon⟩ .colon =
        some ⟨.member entries (some name) :: stack, .value⟩ := rfl
    rw [List.singleton_append, run?_cons hname, run?_cons hcolon, hmakes _ .value (by simp)]
    rfl

/-- A text that is read as a document wherever a value may come is that document. -/
theorem parse?_of_denotes {text : List Char} {d : Document} (h : Denotes text d) :
    parse? text = some d := by
  rcases h with ⟨tokens, hscan, hmakes⟩
  have hrun : tokens.foldlM step? ⟨[], .value⟩ = complete d [] := hmakes [] .value (by simp)
  rw [parse?, scan?_of_scansAs hscan, Option.bind_some, ofTokens?, hrun]
  rfl

end Document

namespace Value

/-- A value in which all numbers are whole. -/
inductive IsWhole : Value → Prop
  | null : IsWhole .null
  | bool (b : Bool) : IsWhole (.bool b)
  | integer (n : Int) : IsWhole (.number (.integer n))
  | text (s : String) : IsWhole (.text s)
  | array (items : List Value) (h : ∀ v ∈ items, IsWhole v) : IsWhole (.array items)
  | object (members : List (String × Value)) (h : ∀ m ∈ members, IsWhole m.2) :
    IsWhole (.object members)

theorem document_array (items : List Value) :
    document (.array items) = .array (items.map document) := by
  have hitems : ∀ items : List Value, Tree.mapItems numberText some items = items.map document := by
    intro items
    induction items with
    | nil => rfl
    | cons v r ih => rw [Tree.mapItems, ih, List.map_cons, document]
  rw [document, Tree.map, hitems]

theorem document_object (members : List (String × Value)) :
    document (.object members) = .object (members.map fun m => (some m.1, document m.2)) := by
  have hmembers : ∀ members : List (String × Value), Tree.mapMembers numberText some members =
      members.map fun m => (some m.1, document m.2) := by
    intro members
    induction members with
    | nil => rfl
    | cons m r ih => rw [Tree.mapMembers, ih, List.map_cons, document]
  rw [document, Tree.map, hmembers]

theorem compactItems_eq (items : List Value) : compactItems items = items.map compact := by
  induction items with
  | nil => rfl
  | cons v r ih => rw [compactItems, ih, List.map_cons]

theorem compactMembers_eq (members : List (String × Value)) :
    compactMembers members = members.map fun m => quoted m.1 ++ ':' :: m.2.compact := by
  induction members with
  | nil => rfl
  | cons m r ih => rw [compactMembers, ih, List.map_cons]

theorem prettyItems_eq (level : Nat) (items : List Value) :
    prettyItems level items = items.map (prettyAt level) := by
  induction items with
  | nil => rfl
  | cons v r ih => rw [prettyItems, ih, List.map_cons]

theorem prettyMembers_eq (level : Nat) (members : List (String × Value)) :
    prettyMembers level members =
      members.map fun m => quoted m.1 ++ ':' :: ([' '] ++ m.2.prettyAt level) := by
  induction members with
  | nil => rfl
  | cons m r ih =>
    rw [prettyMembers, ih, List.map_cons]
    simp

open Document

theorem denotes_null : Denotes "null".toList .null :=
  denotes_word (by decide) (List.all_eq_true.mp rfl) rfl

theorem denotes_bool (b : Bool) : Denotes (boolChars b) (.bool b) := by
  cases b
  · exact denotes_word (by decide) (List.all_eq_true.mp rfl) rfl
  · exact denotes_word (by decide) (List.all_eq_true.mp rfl) rfl

theorem denotes_integer (n : Int) :
    Denotes (Number.integer n).chars (.number (numberText (.integer n))) :=
  denotes_word (integer_ne_nil n) (fun _ => isWordChar_of_mem_integer) (ofWord?_integer n)

/-- A value without blanks. -/
theorem denotes_compact {v : Value} (h : v.IsWhole) : Denotes v.compact v.document := by
  have hblanks : IsBlanks [] := fun c hc => absurd hc List.not_mem_nil
  induction h with
  | null => exact denotes_null
  | bool b => exact denotes_bool b
  | integer n => exact denotes_integer n
  | text s => exact denotes_text s
  | array items _ ih =>
    rw [compact, compactItems_eq, document_array]
    refine Enclosure.array.denotes hblanks ?_
    rw [List.forall₂_map_left_iff, List.forall₂_map_right_iff, List.forall₂_same]
    exact fun v hv => adds_item (ih v hv)
  | object members _ ih =>
    rw [compact, compactMembers_eq, document_object]
    refine Enclosure.object.denotes hblanks ?_
    rw [List.forall₂_map_left_iff, List.forall₂_map_right_iff, List.forall₂_same]
    exact fun m hm => adds_member m.1 hblanks (ih m hm)

theorem isBlanks_newLine (level : Nat) : IsBlanks (newLine level) := by
  intro c hc
  rcases List.mem_cons.mp hc with hc | hc
  · exact Or.inr hc
  · exact Or.inl (List.eq_of_mem_replicate hc)

/-- A list or an object over several lines. -/
theorem denotes_spread {ε : Type} (E : Enclosure ε) (level : Nat) {pieces : List (List Char)}
    {entries : List ε} (h : List.Forall₂ E.Adds pieces entries) :
    Denotes (spread E.first E.last level pieces) (E.whole entries) := by
  unfold spread
  by_cases hne : pieces = []
  · have hnone : IsBlanks [] := fun c hc => absurd hc List.not_mem_nil
    have hdenotes := E.denotes hnone h
    rw [hne] at hdenotes ⊢
    exact hdenotes
  · rw [if_neg fun h => hne (List.isEmpty_iff.mp h), List.append_assoc]
    refine E.denotes (isBlanks_newLine level) ?_
    rw [List.forall₂_map_left_iff]
    exact h.imp fun _ _ hadds => E.adds_blanks (isBlanks_newLine (level + 1)) hadds

/-- A value over several lines. -/
theorem denotes_prettyAt {v : Value} (h : v.IsWhole) (level : Nat) :
    Denotes (v.prettyAt level) v.document := by
  have hblank : IsBlanks [' '] := fun c hc => Or.inl (List.mem_singleton.mp hc)
  -- What is inside a value is printed at another level.
  induction h generalizing level with
  | null => exact denotes_null
  | bool b => exact denotes_bool b
  | integer n => exact denotes_integer n
  | text s => exact denotes_text s
  | array items _ ih =>
    rw [prettyAt, prettyItems_eq, document_array]
    refine denotes_spread Enclosure.array level ?_
    rw [List.forall₂_map_left_iff, List.forall₂_map_right_iff, List.forall₂_same]
    exact fun v hv => adds_item (ih v hv (level + 1))
  | object members _ ih =>
    rw [prettyAt, prettyMembers_eq, document_object]
    refine denotes_spread Enclosure.object level ?_
    rw [List.forall₂_map_left_iff, List.forall₂_map_right_iff, List.forall₂_same]
    exact fun m hm => adds_member m.1 hblank (ih m hm (level + 1))

theorem parse?_compact {v : Value} (h : v.IsWhole) : Document.parse? v.compact = some v.document :=
  parse?_of_denotes (denotes_compact h)

theorem parse?_pretty {v : Value} (h : v.IsWhole) :
    Document.parse? v.pretty.toList = some v.document := by
  rw [pretty, String.toList_ofList]
  exact parse?_of_denotes (denotes_prettyAt h 0)

end Value

end Json

end TagCatalog
