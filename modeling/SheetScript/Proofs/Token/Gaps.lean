import SheetScript.Proofs.Token.Lexer

/-!
# What the lexer passes over

Between the lexemes of a source stand blanks, comments and continued lines, and nothing else.

* `Skips cs rest` says that only these stand in `cs` before `rest`. A comment goes up to the end of
  its line or of the source.
* `skips_gap`, `skips_idle` and `skips_margin` are the three ways of the lexer to pass over them.
-/

namespace SheetScript.Token

variable {c : Char} {cs front rest rest' : List Char}

/-- Only blanks, comments and backslashes at the end of a line stand before the rest. -/
inductive Skips : List Char → List Char → Prop
  | here (cs : List Char) : Skips cs cs
  | blank {c : Char} {cs rest : List Char} (h : Text.isBlank c = true) (s : Skips cs rest) :
      Skips (c :: cs) rest
  | continuation {cs rest : List Char} (s : Skips cs rest) : Skips ('\\' :: '\n' :: cs) rest
  | comment {text cs rest : List Char} (inline : '\n' ∉ text) (ends : ∀ c ∈ cs.head?, c = '\n')
      (s : Skips cs rest) : Skips ('#' :: (text ++ cs)) rest

namespace Skips

theorem trans (h : Skips cs rest) (h' : Skips rest rest') : Skips cs rest' := by
  induction h with
  | here => exact h'
  | blank blank _ ih => exact .blank blank (ih h')
  | continuation _ ih => exact .continuation (ih h')
  | comment inline ends _ ih => exact .comment inline ends (ih h')

theorem newline (h : Skips cs rest) : Skips ('\n' :: cs) rest := .blank rfl h

end Skips

/-- As `Skips`, perhaps from inside a comment. -/
def SkipsFrom (comment : Bool) (cs rest : List Char) : Prop :=
  if comment then
    ∃ text line, cs = text ++ line ∧ '\n' ∉ text ∧ (∀ c ∈ line.head?, c = '\n') ∧ Skips line rest
  else Skips cs rest

theorem skipsFrom_nil (comment : Bool) : SkipsFrom comment [] [] := by
  cases comment with
  | false => exact .here []
  | true => exact ⟨[], [], rfl, List.not_mem_nil, fun _ mem => (nomatch mem), .here []⟩

/-- The end of a line ends its comment. -/
theorem skipsFrom_newline (comment : Bool) (h : Skips cs rest) :
    SkipsFrom comment ('\n' :: cs) rest := by
  cases comment with
  | false => exact h.newline
  | true =>
    exact ⟨[], _, rfl, List.not_mem_nil, fun _ mem => (Option.some.inj mem).symm, h.newline⟩

/-- Before the end of a line, a comment has ended. -/
theorem skipsFrom_here (comment : Bool) (rest : List Char) :
    SkipsFrom comment ('\n' :: rest) ('\n' :: rest) := by
  cases comment with
  | false => exact .here _
  | true => exact ⟨[], _, rfl, List.not_mem_nil, fun _ mem => (Option.some.inj mem).symm, .here _⟩

/-- A comment goes on. -/
theorem SkipsFrom.inComment (no_end : c ≠ '\n') (h : SkipsFrom true cs rest) :
    SkipsFrom true (c :: cs) rest := by
  obtain ⟨text, line, rfl, inline, ends, s⟩ := h
  exact ⟨c :: text, line, rfl, List.not_mem_cons_of_ne_of_not_mem no_end.symm inline, ends, s⟩

/-- A comment starts. -/
theorem SkipsFrom.comment (h : SkipsFrom true cs rest) : Skips ('#' :: cs) rest := by
  obtain ⟨text, line, rfl, inline, ends, s⟩ := h
  exact .comment inline ends s

/-- A comment goes on or starts. -/
theorem SkipsFrom.cons {comment : Bool} (no_end : c ≠ '\n')
    (starts : (comment || c == '#') = true) (h : SkipsFrom true cs rest) :
    SkipsFrom comment (c :: cs) rest := by
  cases comment with
  | true => exact h.inComment no_end
  | false =>
    rw [show c = '#' from beq_iff_eq.1 starts]
    exact h.comment

/-! ## Gaps -/

/-- The gap before a lexeme is passed over. Inside brackets no line end is left. -/
theorem skips_gapLength (bracketed : Bool) (count : Nat) (comment : Bool) (cs : List Char) :
    ∃ taken, gapLength bracketed count comment cs = count + taken ∧
      SkipsFrom comment cs (cs.drop taken) ∧
      (bracketed = true → (cs.drop taken).head? ≠ some '\n') := by
  fun_induction gapLength bracketed count comment cs with
  | case1 count comment => exact ⟨0, rfl, skipsFrom_nil comment, fun _ => by simp⟩
  | case2 count comment rest inside ih =>
    obtain ⟨taken, eq, skips, stops⟩ := ih
    exact ⟨taken + 1, by omega, skipsFrom_newline comment skips, stops⟩
  | case3 count comment rest outside =>
    exact ⟨0, rfl, skipsFrom_here comment rest, fun inside => absurd inside outside⟩
  | case4 count rest inside ih =>
    obtain ⟨taken, eq, skips, stops⟩ := ih
    exact ⟨taken + 2, by omega, (skipsFrom_newline true skips).inComment (by decide), stops⟩
  | case5 count rest outside =>
    exact ⟨1, rfl, (skipsFrom_here true rest).inComment (by decide),
      fun inside => absurd inside outside⟩
  | case6 count comment rest outside ih =>
    obtain ⟨taken, eq, skips, stops⟩ := ih
    rw [Bool.eq_false_iff.2 outside]
    exact ⟨taken + 2, by omega, .continuation skips, stops⟩
  | case7 count comment c rest no_end _ starts ih =>
    obtain ⟨taken, eq, skips, stops⟩ := ih
    exact ⟨taken + 1, by omega, skips.cons no_end starts, stops⟩
  | case8 count comment c rest _ _ outside blank ih =>
    obtain ⟨taken, eq, skips, stops⟩ := ih
    rw [(Bool.or_eq_false_iff.1 (Bool.eq_false_iff.2 outside)).1]
    exact ⟨taken + 1, by omega, .blank blank skips, stops⟩
  | case9 count comment c rest no_end _ outside _ =>
    rw [(Bool.or_eq_false_iff.1 (Bool.eq_false_iff.2 outside)).1]
    exact ⟨0, rfl, .here _, fun _ eq => no_end (Option.some.inj eq)⟩

/-- What stands before the next lexeme of a line is passed over. -/
theorem skips_gap (bracketed : Bool) (cs : List Char) :
    Skips cs (cs.drop (gapLength bracketed 0 false cs)) := by
  obtain ⟨taken, eq, skips, -⟩ := skips_gapLength bracketed 0 false cs
  rwa [eq, Nat.zero_add]

/-- Inside brackets, all line ends are passed over. -/
theorem head?_drop_gapLength (cs : List Char) :
    (cs.drop (gapLength true 0 false cs)).head? ≠ some '\n' := by
  obtain ⟨taken, eq, -, stops⟩ := skips_gapLength true 0 false cs
  rw [eq, Nat.zero_add]
  exact stops rfl

/-! ## Margins -/

theorem isBlank_of_inMargin (h : inMargin c = true) : Text.isBlank c = true := by
  simp only [inMargin, Bool.or_eq_true, beq_iff_eq] at h
  rcases h with (rfl | rfl) | rfl <;> rfl

/-- Lines that hold nothing are passed over as a whole. -/
theorem skips_idleLength (start count : Nat) (comment : Bool) (cs : List Char) :
    idleLength start count comment cs = start ∨
      ∃ taken, idleLength start count comment cs = count + taken ∧
        SkipsFrom comment cs (cs.drop taken) := by
  fun_induction idleLength start count comment cs with
  | case1 start count comment => exact .inr ⟨0, rfl, skipsFrom_nil comment⟩
  | case2 start count comment rest ih =>
    refine .inr ?_
    obtain eq | ⟨taken, eq, skips⟩ := ih
    · exact ⟨1, eq, skipsFrom_newline comment (.here rest)⟩
    · exact ⟨taken + 1, by omega, skipsFrom_newline comment skips⟩
  | case3 start count comment c rest no_end starts ih =>
    refine ih.imp_right ?_
    rintro ⟨taken, eq, skips⟩
    exact ⟨taken + 1, by omega, skips.cons no_end starts⟩
  | case4 start count comment c rest _ outside margin ih =>
    refine ih.imp_right ?_
    rintro ⟨taken, eq, skips⟩
    rw [(Bool.or_eq_false_iff.1 (Bool.eq_false_iff.2 outside)).1]
    exact ⟨taken + 1, by omega, .blank (isBlank_of_inMargin margin) skips⟩
  | case5 => exact .inl rfl

theorem skips_idle (cs : List Char) : Skips cs (cs.drop (idleLength 0 0 false cs)) := by
  obtain eq | ⟨taken, eq, skips⟩ := skips_idleLength 0 0 false cs
  · rw [eq]
    exact .here cs
  · rwa [eq, Nat.zero_add]

/-- The margin of a line is passed over. -/
theorem skips_margin (cs : List Char) : Skips cs (cs.drop (cs.takeWhile inMargin).length) := by
  induction cs with
  | nil => exact .here []
  | cons c cs ih =>
    cases margin : inMargin c with
    | true =>
      rw [List.takeWhile_cons_of_pos margin]
      exact .blank (isBlank_of_inMargin margin) ih
    | false =>
      rw [List.takeWhile_cons_of_neg (Bool.eq_false_iff.1 margin)]
      exact .here _

end SheetScript.Token
