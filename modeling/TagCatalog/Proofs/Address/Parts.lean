import TagCatalog.Proofs.Address.Clause
import TagCatalog.Proofs.Time.Zone

/-!
# Cutting an Address

An address that was written is cut at the marks it was written with.

Reading looks for the first question mark, then for the first opening
parenthesis before it and the closing one behind that, and last for the last
slash in front of the parenthesis. `ofAddress_written` says which characters
each part must be free of for these to be the marks that were written. Only
the base is free text. It has to be empty or end in a slash, and a question
mark or a parenthesis in it would be taken for the one behind the clause.

The options behind the question mark are a list of names with values. A range
leaves out limit and offset, so what is read back is `Options.written`, the
options without the two if there is a range.

## Main definitions

* `PlainBase`: The bases behind which a clause is found again.
* `Options.fields`: The names and values behind the question mark.
* `Options.written`: The options that are written.

## Theorems

* `ofAddress_written`: A written address is cut into its parts.
* `tail_eq_fields`: The text of the options.
* `not_mem_fields`: Characters that no option has.
* `set_versions`, `set_limit`, `set_offset`, `set_range`: Each option is read
  back.
* `ofTail_fields`: Written options are read back.
-/

namespace TagCatalog

open Text

/-- A base behind which a clause is found again: empty or ending in a slash,
    and without a question mark or an opening parenthesis. -/
structure PlainBase (base : List Char) : Prop where
  ends : EndsWith '/' base
  no_question : '?' ∉ base
  no_paren : '(' ∉ base

theorem AddressParts.ofAddress_written (base clause columns sort options : List Char)
    (hbase : PlainBase base) (hclause : '?' ∉ clause ∧ '(' ∉ clause ∧ '/' ∉ clause)
    (hcolumns : '?' ∉ columns ∧ ')' ∉ columns) (hsort : '?' ∉ sort) :
    ofAddress (base ++ clause ++ '(' :: columns ++ ')' :: sort ++ '?' :: options) =
      ⟨base, clause, some columns, sort, options⟩ := by
  -- Each cut is at the first mark of its kind, so nothing before it may have one.
  have hpath : '?' ∉ base ++ clause ++ '(' :: columns ++ ')' :: sort := by
    have hparen : ('?' : Char) ≠ '(' ∧ ('?' : Char) ≠ ')' := by decide
    simp only [List.mem_append, List.mem_cons, not_or]
    exact ⟨⟨⟨hbase.no_question, hclause.1⟩, hparen.1, hcolumns.1⟩, hparen.2, hsort⟩
  have hhead : ∀ c ∈ base ++ clause, decide (c ≠ '(') = true := by
    intro c hc
    rw [decide_eq_true_eq]
    rintro rfl
    exact (List.mem_append.mp hc).elim hbase.no_paren hclause.2.1
  have happ : base ++ clause ++ '(' :: columns ++ ')' :: sort =
      base ++ clause ++ '(' :: (columns ++ ')' :: sort) := by
    rw [List.append_assoc (base ++ clause), List.cons_append]
  have hquestion := cut?_append '?' _ options hpath
  have htake := takeWhile_append_cons (fun c => decide (c ≠ '(')) (base ++ clause)
    (columns ++ ')' :: sort) '(' hhead (by decide)
  have hdrop := dropWhile_append_cons (fun c => decide (c ≠ '(')) (base ++ clause)
    (columns ++ ')' :: sort) '(' hhead (by decide)
  have hopen : stripStart? ['('] ('(' :: (columns ++ ')' :: sort)) =
      some (columns ++ ')' :: sort) :=
    (stripStart?_eq_some_iff _ _ _).mpr rfl
  have hclose := cut?_append ')' columns sort hcolumns.2
  have hslash := throughLast_append '/' base clause hbase.ends hclause.2.2
  rw [happ] at hquestion
  unfold ofAddress
  rw [happ]
  simp only [hquestion, Option.getD_some, htake, hdrop, hopen, Option.bind_some, hclose, hslash]

namespace Options

/-- The names and values behind the question mark. -/
def fields (o : Options) : List (List Char × List Char) :=
  ("versions".toList, o.versions.word) ::
    match o.range with
    | some mode => [("range".toList, mode.word)]
    | none =>
      (o.limit.map fun limit => ("limit".toList, limit.word)).toList ++
        (o.offset.map fun offset => ("offset".toList, Numeral.ofNat offset.toNat)).toList

/-- The options that are written: a range leaves out limit and offset. -/
def written (o : Options) : Options :=
  if o.range.isSome then { o with limit := none, offset := none } else o

theorem tail_eq_fields (o : Options) :
    o.tail = '?' :: joinWith '&' (o.fields.map fun f => f.1 ++ '=' :: f.2) := by
  -- Each mark stands with the name behind it in one text.
  have hversions : "?versions=".toList = '?' :: ("versions".toList ++ ['=']) := rfl
  have hrange : "&range=".toList = '&' :: ("range".toList ++ ['=']) := rfl
  have hlimit : "&limit=".toList = '&' :: ("limit".toList ++ ['=']) := rfl
  have hoffset : "&offset=".toList = '&' :: ("offset".toList ++ ['=']) := rfl
  unfold tail fields
  rw [hversions, hrange, hlimit, hoffset]
  generalize "versions".toList = v, "range".toList = r, "limit".toList = l, "offset".toList = f
  cases o.range with
  | some mode =>
    simp only [List.map_cons, List.map_nil, joinWith_cons_cons, joinWith_singleton,
      List.cons_append, List.append_assoc, List.nil_append]
  | none =>
    cases o.limit <;> cases o.offset <;>
      simp only [Option.map_none, Option.map_some, Option.toList_none, Option.toList_some,
        List.map_cons, List.map_nil, joinWith_cons_cons, joinWith_singleton, List.cons_append,
        List.append_assoc, List.nil_append, List.append_nil]

/-- Names and values are told apart again, if no name has the character
    between them. -/
theorem filterMap_cut? (sep : Char) (fs : List (List Char × List Char)) (h : ∀ f ∈ fs, sep ∉ f.1) :
    (fs.map fun f => f.1 ++ sep :: f.2).filterMap (cut? sep) = fs := by
  induction fs with
  | nil => rfl
  | cons f fs ih =>
    rw [List.map_cons, List.filterMap_cons_some (cut?_append sep f.1 f.2 (h f List.mem_cons_self)),
      ih fun g hg => h g (List.mem_cons_of_mem f hg)]

/-- The words of options have only letters and digits. -/
theorem not_mem_word (c : Char) (hc : c.isAlphanum = false) :
    (∀ v : Versions, c ∉ v.word) ∧ (∀ mode : RangeMode, c ∉ mode.word) ∧
      (∀ n, c ∉ Numeral.ofNat n) ∧ ∀ l : Limit, c ∉ l.word := by
  have hword : ∀ w : List Char, w.all Char.isAlphanum = true → c ∉ w := by
    intro w hw hmem
    exact Bool.noConfusion (hc.symm.trans (List.all_eq_true.mp hw c hmem))
  have hdigits : ∀ n, c ∉ Numeral.ofNat n := by
    intro n h
    have hdigit := Numeral.isDigit_of_mem_ofNat n c h
    rw [Char.isAlphanum, hdigit, Bool.or_true] at hc
    exact Bool.noConfusion hc
  refine ⟨fun v => ?_, fun mode => ?_, hdigits, fun l => ?_⟩
  · cases v <;> exact hword _ (by decide)
  · cases mode <;> exact hword _ (by decide)
  · cases l with
    | rows n => exact hdigits _
    | unlimited => exact hword _ (by decide)

theorem not_mem_fields (o : Options) (c : Char) (hc : c.isAlphanum = false) :
    ∀ f ∈ o.fields, c ∉ f.1 ∧ c ∉ f.2 := by
  rcases not_mem_word c hc with ⟨hversions, hmode, hdigits, hlimit⟩
  have hname : ∀ name ∈ ["versions", "range", "limit", "offset"], c ∉ name.toList := by
    have hall : ∀ name ∈ ["versions", "range", "limit", "offset"],
        name.toList.all Char.isAlphanum = true := by decide
    intro name hmem h
    exact Bool.noConfusion (hc.symm.trans (List.all_eq_true.mp (hall name hmem) c h))
  intro f hf
  rcases List.mem_cons.mp hf with rfl | hf
  · exact ⟨hname _ (by simp), hversions _⟩
  · cases hrange : o.range with
    | some mode =>
      rw [hrange, List.mem_singleton] at hf
      subst hf
      exact ⟨hname _ (by simp), hmode _⟩
    | none =>
      rw [hrange, List.mem_append, Option.mem_toList, Option.mem_toList] at hf
      rcases hf with hf | hf
      · rcases Option.map_eq_some_iff.mp hf with ⟨l, _, rfl⟩
        exact ⟨hname _ (by simp), hlimit l⟩
      · rcases Option.map_eq_some_iff.mp hf with ⟨n, _, rfl⟩
        exact ⟨hname _ (by simp), hdigits _⟩

/-- Behind the question mark there is no other one. -/
theorem no_question_fields (o : Options) :
    '?' ∉ joinWith '&' (o.fields.map fun f => f.1 ++ '=' :: f.2) := by
  refine not_mem_joinWith '&' _ '?' (by decide) (List.forall_mem_map.mpr fun f hf => ?_)
  rcases o.not_mem_fields '?' (by decide) f hf with ⟨hname, hvalue⟩
  rw [List.mem_append, List.mem_cons, not_or, not_or]
  exact ⟨hname, by decide, hvalue⟩

theorem set_versions (o : Options) (v : Versions) :
    o.set "versions".toList v.word = { o with versions := v } := by
  cases v <;> rfl

theorem set_range (o : Options) (mode : RangeMode) :
    o.set "range".toList mode.word = { o with range := some mode } := by
  cases mode <;> rfl

theorem set_offset (o : Options) (n : UInt64) :
    o.set "offset".toList (Numeral.ofNat n.toNat) = { o with offset := some n } := by
  unfold set
  rw [if_neg (by decide), if_neg (by decide), if_pos rfl, Numeral.word?_ofNat]

theorem set_limit (o : Options) (l : Limit) :
    o.set "limit".toList l.word = { o with limit := some l } := by
  unfold set
  rw [if_neg (by decide), if_pos rfl]
  cases l with
  | unlimited => rfl
  | rows n =>
    -- A number is never taken for the word that stands for no limit.
    have hword : Numeral.ofNat n.rows.toNat ≠ "none".toList := by
      intro h
      have hmem : 'n' ∈ Numeral.ofNat n.rows.toNat := h ▸ by decide
      exact absurd (Numeral.isDigit_of_mem_ofNat _ _ hmem) (by decide)
    have hsize : PageSize.ofWord? n.rows = some n := by
      unfold PageSize.ofWord?
      rw [dif_neg n.pos]
    rw [Limit.word, if_neg hword, Numeral.word?_ofNat, Option.bind_some, hsize, Option.map_some]

/-- Setting the written names to their values, one after the other, makes up
    the options that are written. -/
theorem foldl_set_fields (o : Options) :
    o.fields.foldl (fun o f => o.set f.1 f.2) {} = o.written := by
  rcases o with ⟨versions, limit, offset, range⟩
  unfold fields written
  rw [List.foldl_cons, set_versions]
  cases range with
  | some mode =>
    simp only [List.foldl_cons, List.foldl_nil, set_range, Option.isSome_some, if_true]
  | none =>
    cases limit <;> cases offset <;>
      simp only [Option.map_none, Option.map_some, Option.toList_none, Option.toList_some,
        List.nil_append, List.append_nil, List.cons_append, List.foldl_cons, List.foldl_nil,
        set_limit, set_offset, Option.isSome_none, Bool.false_eq_true, if_false]

/-- Written options are read back. -/
theorem ofTail_fields (o : Options) :
    ofTail (joinWith '&' (o.fields.map fun f => f.1 ++ '=' :: f.2)) = o.written := by
  have hjoint : ∀ p ∈ o.fields.map fun f => f.1 ++ '=' :: f.2, '&' ∉ p := by
    intro p hp
    rcases List.mem_map.mp hp with ⟨f, hf, rfl⟩
    rcases o.not_mem_fields '&' (by decide) f hf with ⟨hname, hvalue⟩
    rw [List.mem_append, List.mem_cons, not_or, not_or]
    exact ⟨hname, by decide, hvalue⟩
  -- Values may have any other character, so only the first mark counts.
  have hcut := filterMap_cut? '=' o.fields fun f hf => (o.not_mem_fields '=' (by decide) f hf).1
  unfold ofTail
  rw [splitOn_joinWith '&' _ (by simp [fields]) hjoint, hcut]
  exact foldl_set_fields o

end Options

end TagCatalog
