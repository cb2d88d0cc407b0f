import TagCatalog.Json.Printer
import TagCatalog.Json.Token
import TagCatalog.Proofs.Text.Split

/-!
# Pieces of Printed Text

A text that was printed falls into the tokens that it was printed for.

What a piece of text is read as depends on what follows in one case only. A word goes on as
long as there are letters, digits, signs and points, and so it has to be followed by
something else, or by nothing. `Breaks` says this of what follows, and `ScansAs` is a
statement about a piece wherever it stands in front of such a text. Pieces are put together
with it from left to right: a mark or a blank in front of a piece needs no condition at all,
and any other piece needs one on the piece behind it.

A quoted text is written character by character and read in the same way. Between two
characters the reader is where it was, with one more thing read, which is `scan_quotedChar`.
Characters with a number instead of a name are kept apart until the end, because elsewhere
two numbers may be one character. Those that are printed with a number never are.

## Main definitions

* `Token.Breaks`: A text that ends a word in front of it.
* `Token.ScansAs`: A piece of a text that is read as some tokens.
* `Piece.ofChar`: What a printed character is read as.

## Theorems

* `scansAs_nil`, `scansAs_mark`, `scansAs_blanks`, `scansAs_append`: Pieces put together.
* `scansAs_word`: Words.
* `scan_quotedChar`, `chars?_ofChar`, `scansAs_quoted`: Quoted texts.
* `scan?_of_scansAs`: A whole text.
-/

namespace TagCatalog

namespace Json

open Text

namespace Token

/-- A text that is empty or begins with a character that is in no word. -/
def Breaks (cs : List Char) : Prop := ∀ c ∈ cs.head?, isWordChar c = false

/-- A piece of text that is read as some tokens wherever it stands, unless it is followed by
    more of a word. -/
def ScansAs (piece : List Char) (tokens : List Token) : Prop :=
  ∀ rest, Breaks rest →
    scanFrom? .between (piece ++ rest) = (scanFrom? .between rest).map (tokens ++ ·)

theorem Breaks.append {cs ds : List Char} (h : Breaks cs) (h' : Breaks ds) : Breaks (cs ++ ds) := by
  cases cs with
  | nil => exact h'
  | cons c r => exact h

/-- A character that completes some tokens. -/
theorem scan_step {place place' : Place} {c : Char} {ts : List Token}
    (h : step? place c = some (ts, place')) (r : List Char) :
    scanFrom? place (c :: r) = (scanFrom? place' r).map (ts ++ ·) := by
  rw [scanFrom?, h]

/-- A character that completes none. -/
theorem scan_quiet {place place' : Place} {c : Char} (h : step? place c = some ([], place'))
    (r : List Char) : scanFrom? place (c :: r) = scanFrom? place' r := by
  rw [scan_step h]
  cases scanFrom? place' r with
  | none => rfl
  | some ts => rfl

theorem scansAs_nil : ScansAs [] [] := by
  intro rest _
  rw [List.nil_append]
  cases scanFrom? .between rest with
  | none => rfl
  | some ts => rfl

theorem scansAs_append {piece piece' : List Char} {tokens tokens' : List Token}
    (h : ScansAs piece tokens) (h' : ScansAs piece' tokens') (hbreak : Breaks piece') :
    ScansAs (piece ++ piece') (tokens ++ tokens') := by
  intro rest hrest
  rw [List.append_assoc, h _ (hbreak.append hrest), h' rest hrest, Option.map_map]
  congr 1
  funext ts
  rw [Function.comp_apply, List.append_assoc]

/-- A mark in front of a piece. -/
theorem scansAs_mark {c : Char} {t : Token} (hc : start? c = some ([t], .between))
    {piece : List Char} {tokens : List Token} (h : ScansAs piece tokens) :
    ScansAs (c :: piece) (t :: tokens) := by
  have hstep : step? .between c = some ([t], .between) := hc
  intro rest hrest
  rw [List.cons_append, scan_step hstep, h rest hrest, Option.map_map]
  rfl

/-- Blanks in front of a piece. -/
theorem scansAs_blanks {blanks : List Char} (hblanks : ∀ c ∈ blanks, c = ' ' ∨ c = '\n')
    {piece : List Char} {tokens : List Token} (h : ScansAs piece tokens) :
    ScansAs (blanks ++ piece) tokens := by
  induction blanks with
  | nil => exact h
  | cons c r ih =>
    have hc : step? .between c = some ([], .between) := by
      rcases hblanks c List.mem_cons_self with rfl | rfl <;> rfl
    intro rest hrest
    rw [List.cons_append, List.cons_append, scan_quiet hc]
    exact ih (fun d hd => hblanks d (List.mem_cons_of_mem c hd)) rest hrest

/-- The end of a word is where something else begins, or where the text ends. -/
theorem scan_wordEnd (done : List Char) {rest : List Char} (hrest : Breaks rest) :
    scanFrom? (.word done) rest =
      (scanFrom? .between rest).map ([Token.word done.reverse] ++ ·) := by
  cases rest with
  | nil => rfl
  | cons c r =>
    have hc : isWordChar c = false := hrest c rfl
    have hstep : step? (.word done) c =
        (start? c).map fun x => (Token.word done.reverse :: x.1, x.2) := by
      rw [step?, if_neg (by simp [hc])]
    cases hstart : start? c with
    | none =>
      rw [hstart] at hstep
      rw [scanFrom?, scanFrom?, hstep, step?, hstart]
      rfl
    | some x =>
      rw [hstart] at hstep
      have hfirst : step? .between c = some x := hstart
      rw [scan_step hstep, scan_step hfirst, Option.map_map]
      rfl

/-- Behind the first characters of a word comes the rest of it. -/
theorem scan_word (done : List Char) {cs : List Char} (hcs : ∀ c ∈ cs, isWordChar c = true)
    {rest : List Char} (hrest : Breaks rest) :
    scanFrom? (.word done) (cs ++ rest) =
      (scanFrom? .between rest).map ([Token.word (done.reverse ++ cs)] ++ ·) := by
  induction cs generalizing done with
  | nil =>
    rw [List.nil_append, List.append_nil]
    exact scan_wordEnd done hrest
  | cons c r ih =>
    have hstep : step? (.word done) c = some ([], .word (c :: done)) := by
      rw [step?, if_pos (hcs c List.mem_cons_self)]
    rw [List.cons_append, scan_quiet hstep,
      ih (c :: done) fun d hd => hcs d (List.mem_cons_of_mem c hd),
      List.reverse_cons, List.append_assoc, List.singleton_append]

/-- No blank and no quote is in a word. -/
theorem start?_of_isWordChar {c : Char} (h : isWordChar c = true) :
    start? c = some ([], .word [c]) := by
  have hother : ∀ d, isWordChar d = false → c ≠ d := by
    rintro d hd rfl
    exact Bool.false_ne_true (hd.symm.trans h)
  rw [start?, if_neg (not_or.mpr ⟨hother _ rfl, not_or.mpr ⟨hother _ rfl, not_or.mpr
    ⟨hother _ rfl, hother _ rfl⟩⟩⟩), if_neg (hother _ rfl), if_pos h]

theorem scansAs_word {cs : List Char} (hne : cs ≠ []) (hcs : ∀ c ∈ cs, isWordChar c = true) :
    ScansAs cs [.word cs] := by
  cases cs with
  | nil => exact absurd rfl hne
  | cons c r =>
    intro rest hrest
    have hstep : step? .between c = some ([], .word [c]) :=
      start?_of_isWordChar (hcs c List.mem_cons_self)
    rw [List.cons_append, scan_quiet hstep,
      scan_word [c] (fun d hd => hcs d (List.mem_cons_of_mem c hd)) hrest]
    rfl

end Token

/-- What a printed character is read as: a number where it was printed with one, and itself
    otherwise. -/
def Piece.ofChar (c : Char) : Piece :=
  if c.toNat < 0x20 ∧ c ∉ ['\x08', '\x0C', '\n', '\r', '\t'] then .unit c.toNat else .char c

/-- No two printed characters are read as one. -/
theorem Piece.chars?_ofChar (cs : List Char) : chars? (cs.map ofChar) = some cs := by
  induction cs with
  | nil => rfl
  | cons c r ih =>
    rw [List.map_cons, ofChar]
    split
    · next hc =>
      have hlow : c.toNat < 0xD800 ∨ 0xDFFF < c.toNat := Or.inl (by omega)
      -- Whether another number follows or not, this one is a character of its own.
      have hself : chars? (.unit c.toNat :: r.map ofChar) =
          (chars? (r.map ofChar)).map (Char.ofNat c.toNat :: ·) := by
        cases r.map ofChar with
        | nil => simp only [chars?, if_pos hlow]
        | cons p ps =>
          cases p with
          | char d => simp only [chars?, if_pos hlow]
          | unit n => simp only [chars?, if_pos hlow]
      rw [hself, ih, Char.ofNat_toNat]
      rfl
    · rw [chars?, ih]
      rfl

namespace Token

theorem hexValue?_digitChar : ∀ n < 16, Percent.hexValue? (Nat.digitChar n) = some n := by
  decide

theorem scan_escape (done : List Piece) (rest : List Char) :
    scanFrom? (.quoted done) ('\\' :: rest) = scanFrom? (.escaped done) rest :=
  scan_quiet rfl rest

/-- A character that has a name behind a backslash. -/
theorem scan_named (done : List Piece) {name c : Char} (hname : name ≠ 'u')
    (h : escaped? name = some c) (rest : List Char) :
    scanFrom? (.quoted done) ('\\' :: name :: rest) =
      scanFrom? (.quoted (.char c :: done)) rest := by
  rw [scan_escape]
  refine scan_quiet ?_ rest
  rw [step?, if_neg hname, h]
  rfl

/-- A character that has a number of two digits. -/
theorem scan_coded (done : List Piece) {n : Nat} (hn : n < 256) (rest : List Char) :
    scanFrom? (.quoted done)
        ("\\u00".toList ++ [Nat.digitChar (n / 16), Nat.digitChar (n % 16)] ++ rest) =
      scanFrom? (.quoted (.unit n :: done)) rest := by
  have hhigh : step? (.coded done 2 0) (Nat.digitChar (n / 16)) =
      some ([], .coded done 1 (n / 16)) := by
    rw [step?, hexValue?_digitChar _ (by omega)]
    simp
  have hlow : step? (.coded done 1 (n / 16)) (Nat.digitChar (n % 16)) =
      some ([], .quoted (.unit n :: done)) := by
    rw [step?, hexValue?_digitChar _ (by omega), Option.map_some, if_pos (Nat.le_refl 1),
      Nat.div_add_mod]
  have hnumber : step? (.escaped done) 'u' = some ([], .coded done 4 0) := rfl
  have hzero : step? (.coded done 4 0) '0' = some ([], .coded done 3 0) := rfl
  have hzero' : step? (.coded done 3 0) '0' = some ([], .coded done 2 0) := rfl
  show scanFrom? (.quoted done)
    ('\\' :: 'u' :: '0' :: '0' :: Nat.digitChar (n / 16) :: Nat.digitChar (n % 16) :: rest) = _
  rw [scan_escape, scan_quiet hnumber, scan_quiet hzero, scan_quiet hzero', scan_quiet hhigh,
    scan_quiet hlow]

/-- A printed character is read as one thing, and reading stays inside the quotes. -/
theorem scan_quotedChar (done : List Piece) (c : Char) (rest : List Char) :
    scanFrom? (.quoted done) (quotedChar c ++ rest) =
      scanFrom? (.quoted (Piece.ofChar c :: done)) rest := by
  unfold quotedChar
  split
  case h_1 | h_2 | h_3 | h_4 | h_5 | h_6 | h_7 => exact scan_named done (by decide) rfl rest
  case h_8 hquote hslash hb hf hn hr ht =>
    by_cases hc : c.toNat < 0x20
    · have hnumber : Piece.ofChar c = .unit c.toNat := by
        rw [Piece.ofChar, if_pos ⟨hc, by simp_all⟩]
      rw [if_pos hc, hnumber]
      exact scan_coded done (by omega) rest
    · have hself : Piece.ofChar c = .char c := by
        rw [Piece.ofChar, if_neg fun h => hc h.1]
      have hstep : step? (.quoted done) c = some ([], .quoted (.char c :: done)) := by
        rw [step?, if_neg hquote, if_neg hslash, if_neg hc]
      rw [if_neg hc, hself]
      exact scan_quiet hstep rest

theorem scan_quotedChars (done : List Piece) (cs rest : List Char) :
    scanFrom? (.quoted done) (cs.flatMap quotedChar ++ rest) =
      scanFrom? (.quoted ((cs.map Piece.ofChar).reverse ++ done)) rest := by
  induction cs generalizing done with
  | nil => rfl
  | cons c r ih =>
    rw [List.flatMap_cons, List.append_assoc, scan_quotedChar, ih, List.map_cons, List.reverse_cons,
      List.append_assoc, List.singleton_append]

theorem scansAs_quoted (s : String) : ScansAs (quoted s) [.text (some s)] := by
  intro rest _
  have hopen : step? .between '"' = some ([], .quoted []) := rfl
  rw [quoted, List.cons_append, List.cons_append, scan_quiet hopen, List.append_assoc,
    scan_quotedChars, List.append_nil]
  have hclose : step? (.quoted (s.toList.map Piece.ofChar).reverse) '"' =
      some ([.text (some s)], .between) := by
    rw [step?, if_pos rfl, List.reverse_reverse, Piece.chars?_ofChar, Option.map_some,
      String.ofList_toList]
  rw [List.singleton_append, scan_step hclose]

/-- A whole text. -/
theorem scan?_of_scansAs {text : List Char} {tokens : List Token} (h : ScansAs text tokens) :
    scan? text = some tokens := by
  have hend := h [] fun c hc => nomatch hc
  rw [List.append_nil] at hend
  rw [scan?, hend]
  simp [scanFrom?]

end Token

end Json

end TagCatalog
