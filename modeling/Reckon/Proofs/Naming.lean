import Reckon.Proofs.Calls
import Reckon.Proofs.Items
import Reckon.Proofs.Reading

/-!
# Proofs — Naming

Where names come from.  What the scanner makes an identifier of is a word: it begins with a letter,
goes on with letters and numerals, and is no keyword (`Lexer.word_of_mem_items`).  The name of bare
expressions is no word (`Word.ne_anonymous`), so no text spells it.

A form has the name of its function, unless it is a bare expression, those of its parameters, and
those of the variables and callees of its body (`Form.Names`).  All of them were ahead, as
identifiers, when the form was parsed (`Parser.mem_ahead_of_form`).
-/

namespace Reckon

open ItemStream (Final items)

/-! ### Words -/

/-- The name can be spelled: it begins with a letter, it has no other characters than letters and
numerals, and it is no keyword. -/
structure Word (name : String) : Prop where
  letter : ∃ c ∈ name.toList.head?, isLetter c = true
  chars : ∀ c ∈ name.toList, isWordChar c = true
  ne_def : name ≠ "def"
  ne_extern : name ≠ "extern"

/-- The name of bare expressions begins with no letter. -/
theorem Word.ne_anonymous {name : String} (h : Word name) : name ≠ anonymousName := by
  rintro rfl
  obtain ⟨c, hc, hletter⟩ := h.letter
  obtain rfl : '_' = c := Option.some.inj hc
  exact absurd hletter (by decide)

/-- What is read as an identifier is a word, and no keyword. -/
theorem Token.word_of_ofWord {c : Char} {word : List Char} {x : String} (hc : isLetter c = true)
    (hword : ∀ d ∈ word, isWordChar d = true)
    (h : Token.ofWord (String.ofList (c :: word)) = .ident x) : Word x := by
  unfold ofWord at h
  split at h
  · cases h
  · next hdef =>
      split at h
      · cases h
      · next hextern =>
          cases h
          have hfirst : isWordChar c = true := by simp [isWordChar, hc]
          refine ⟨⟨c, by simp, hc⟩, fun d hd => ?_, hdef, hextern⟩
          rw [String.toList_ofList] at hd
          rcases List.mem_cons.mp hd with rfl | hd
          · exact hfirst
          · exact hword d hd

namespace Lexer

/-- A run has no other characters than those with the property. -/
theorem of_mem_run {p : Char → Bool} {rs : List Reply} {c : Char} (h : c ∈ (run p rs).1) :
    p c = true := by
  obtain ⟨r, hr, hc⟩ := List.mem_filterMap.mp h
  have hp : matching p r = true := List.all_eq_true.mp List.all_takeWhile r hr
  rwa [matching, hc] at hp

/-- What is made an identifier is a word. -/
theorem word_of_scan {rs : List Reply} {x : String} (h : (scan rs).1 = .token (.ident x)) :
    Word x := by
  revert h
  fun_cases scan rs with
  | case1 c rest hl word rest' hrun =>
      intro h
      have hword : ∀ d ∈ word, isWordChar d = true := by
        intro d hd
        have hmem : d ∈ (run isWordChar rest).1 := by rwa [hrun]
        exact of_mem_run hmem
      exact Token.word_of_ofWord hl hword (Item.token.inj h)
  | case2 c rest hl hn digits rest' hrun =>
      unfold numberItem
      split
      · exact nofun
      · exact nofun
  | case3 c rest hl hn => exact nofun
  | case4 rs hrs => exact nofun

/-- **The identifiers of a text are words.** -/
theorem word_of_mem_items {l : Lexer} {x : String} (h : .token (.ident x) ∈ items l) : Word x := by
  fun_induction items l with
  | case1 l heof => cases h
  | case2 l hne ih =>
      rcases List.mem_cons.mp h with hfirst | hrest
      · exact word_of_scan hfirst.symm
      · exact ih hrest

/-- No text spells the name of a bare expression. -/
theorem anonymous_notMem_items (l : Lexer) : .token (.ident anonymousName) ∉ items l :=
  fun h => (word_of_mem_items h).ne_anonymous rfl

end Lexer

/-! ### Names of trees -/

/-- The name occurs in the expression, as a variable or as a callee. -/
def Expr.Uses (x : String) (e : Expr) : Prop := e.Mentions x ∨ ∃ count, e.Invokes x count

/-- The name occurs in one of the expressions. -/
def Expr.AnyUses (x : String) (es : List Expr) : Prop :=
  AnyMentions x es ∨ ∃ count, AnyInvokes x count es

mutual

/-- The variables and callees of an expression are spelled by its phrase. -/
theorem Phrase.mem_tokens_of_uses {x : String} (φ : Phrase) (h : φ.expr.Uses x) :
    .ident x ∈ φ.tokens := by
  match φ with
  | .number v =>
      rcases h with h | ⟨count, h⟩
      · exact h.elim
      · exact h.elim
  | .var y =>
      rcases h with h | ⟨count, h⟩
      · exact h ▸ List.mem_cons_self
      · exact h.elim
  | .binary op φ ψ =>
      rcases h with (h | h) | ⟨count, h | h⟩
      · simp [tokens, φ.mem_tokens_of_uses (.inl h)]
      · simp [tokens, ψ.mem_tokens_of_uses (.inl h)]
      · simp [tokens, φ.mem_tokens_of_uses (.inr ⟨count, h⟩)]
      · simp [tokens, ψ.mem_tokens_of_uses (.inr ⟨count, h⟩)]
  | .group φ => simp [tokens, φ.mem_tokens_of_uses h]
  | .call g [] =>
      rcases h with h | ⟨count, ⟨rfl, -⟩ | h⟩
      · exact h.elim
      · simp [tokens]
      · exact h.elim
  | .call g (φ :: φs) =>
      rcases h with (h | h) | ⟨count, ⟨rfl, -⟩ | h | h⟩
      · simp [tokens, φ.mem_tokens_of_uses (.inl h)]
      · simp [tokens, mem_furtherTokens_of_uses φs (.inl h)]
      · simp [tokens]
      · simp [tokens, φ.mem_tokens_of_uses (.inr ⟨count, h⟩)]
      · simp [tokens, mem_furtherTokens_of_uses φs (.inr ⟨count, h⟩)]

theorem Phrase.mem_furtherTokens_of_uses {x : String} (φs : List Phrase)
    (h : Expr.AnyUses x (exprs φs)) : .ident x ∈ furtherTokens φs := by
  match φs with
  | [] =>
      rcases h with h | ⟨count, h⟩
      · exact h.elim
      · exact h.elim
  | φ :: φs =>
      rcases h with (h | h) | ⟨count, h | h⟩
      · simp [furtherTokens, φ.mem_tokens_of_uses (.inl h)]
      · simp [furtherTokens, mem_furtherTokens_of_uses φs (.inl h)]
      · simp [furtherTokens, φ.mem_tokens_of_uses (.inr ⟨count, h⟩)]
      · simp [furtherTokens, mem_furtherTokens_of_uses φs (.inr ⟨count, h⟩)]

end

/-- The form has the name from its text. -/
inductive Form.Names (form : Form) (x : String) : Prop where
  | function (hkind : form.kind ≠ .expression) (hname : form.prototype.name = x)
  | parameter (hparam : x ∈ form.prototype.params)
  | body {e : Expr} (hbody : form.body? = some e) (huses : e.Uses x)

/-! ### Names ahead -/

namespace Parser

variable {σ : Type} [ItemStream σ] [Final σ] {p q : Parser σ}

theorem Reads.mem_ahead {ts : List Token} (h : p.Reads ts q) {t : Token} (ht : t ∈ ts)
    (hne : t ≠ .eof) : .token t ∈ p.ahead := by
  induction h with
  | here p => cases ht
  | @pass p p' q ts ha h ih =>
      rcases List.mem_cons.mp ht with rfl | ht
      · rw [ahead_of_ne hne]
        exact List.mem_cons_self
      · have hmem := ih ht
        rw [(ahead_advance ha).1] at hmem
        exact (items_suffix_ahead p).subset hmem

/-- The names in an expression that is parsed are ahead. -/
theorem mem_ahead_of_expression {e : Expr} (h : expression p = .ok e q) {x : String}
    (hx : e.Uses x) : .token (.ident x) ∈ p.ahead := by
  obtain ⟨t, p₀, φ, hpeek, hreads, rfl, -⟩ := reads_of_expression h
  have hmem := hreads.mem_ahead (φ.mem_tokens_of_uses hx) (by simp)
  exact (onward_peek.ahead_suffix hpeek).subset hmem

theorem mem_items_of_parameters {read params : List String} (h : parameters read p = .ok params q)
    {x : String} (hx : x ∈ params) : x ∈ read ∨ .token (.ident x) ∈ items p.stream := by
  fun_induction parameters read p with
  | case1 read p e r ha => cases h
  | case2 read p u r ha y hy ih =>
      rw [← (ahead_advance ha).1, ahead_of_ne (by simp [hy]), hy]
      rcases ih h with hread | hmem
      · rcases List.mem_cons.mp hread with rfl | hread
        · exact .inr List.mem_cons_self
        · exact .inl hread
      · exact .inr (List.mem_cons_of_mem _ hmem)
  | case3 read p u r ha hno =>
      cases h
      exact .inl (by simpa using hx)

/-- The names in a prototype that is parsed are ahead. -/
theorem mem_ahead_of_prototype {f : Prototype} (h : prototype p = .ok f q) :
    .token (.ident f.name) ∈ p.ahead ∧ ∀ x ∈ f.params, .token (.ident x) ∈ p.ahead := by
  unfold prototype at h
  obtain ⟨t, p₁, hpeek, h⟩ := bind_eq_ok h
  have hahead := (onward_peek.ahead_suffix hpeek).subset
  split at h
  · next name =>
      obtain ⟨t', p₂, hnext, h⟩ := bind_eq_ok h
      obtain ⟨_, p₃, hopen, h⟩ := bind_eq_ok h
      obtain ⟨params, p₄, hparams, h⟩ := bind_eq_ok h
      obtain ⟨_, _, hget, h⟩ := bind_eq_ok h
      obtain ⟨_, p₅, hclose, h⟩ := bind_eq_ok h
      obtain ⟨_, p₆, hadvance, h⟩ := bind_eq_ok h
      cases h
      have hname : .token (.ident name) ∈ p₁.ahead := by
        have hcurrent : Token.ident name = p₁.current := (eq_current_of_peek hpeek).1
        rw [ahead_of_ne (by simp [← hcurrent]), ← hcurrent]
        exact List.mem_cons_self
      refine ⟨hahead hname, fun x hx => hahead ?_⟩
      rcases mem_items_of_parameters hparams hx with hread | hmem
      · cases hread
      · have hopened := (onward_require _ _ _).ahead_suffix hopen
        refine (hopened.trans (onward_next.ahead_suffix hnext)).subset ?_
        exact (items_suffix_ahead p₃).subset hmem
  · cases h

/-- **The names of a form that is parsed are ahead**, and a bare expression gets its own name. -/
theorem mem_ahead_of_form {t : Token} {f : Form} (h : form t p = .ok f q) :
    (∀ x, f.Names x → .token (.ident x) ∈ p.ahead) ∧
      (f.kind = .expression → f.prototype = .anonymous) := by
  unfold form at h
  split at h
  · obtain ⟨_, p₁, h₁, h⟩ := bind_eq_ok h
    obtain ⟨prototype, p₂, h₂, h⟩ := bind_eq_ok h
    obtain ⟨body, p₃, h₃, h⟩ := bind_eq_ok h
    cases h
    have htake := onward_take.ahead_suffix h₁
    obtain ⟨hname, hparams⟩ := mem_ahead_of_prototype h₂
    refine ⟨fun x hx => htake.subset ?_, nofun⟩
    cases hx with
    | function hkind h => exact h ▸ hname
    | parameter h => exact hparams x h
    | body hbody huses =>
        cases hbody
        exact (onward_prototype.ahead_suffix h₂).subset (mem_ahead_of_expression h₃ huses)
  · obtain ⟨_, p₁, h₁, h⟩ := bind_eq_ok h
    obtain ⟨prototype, p₂, h₂, h⟩ := bind_eq_ok h
    cases h
    have htake := onward_take.ahead_suffix h₁
    obtain ⟨hname, hparams⟩ := mem_ahead_of_prototype h₂
    refine ⟨fun x hx => htake.subset ?_, nofun⟩
    cases hx with
    | function hkind h => exact h ▸ hname
    | parameter h => exact hparams x h
    | body hbody huses => cases hbody
  · obtain ⟨body, p₁, h₁, h⟩ := bind_eq_ok h
    cases h
    refine ⟨fun x hx => ?_, fun _ => rfl⟩
    cases hx with
    | function hkind h => exact absurd rfl hkind
    | parameter h => cases h
    | body hbody huses =>
        cases hbody
        exact mem_ahead_of_expression h₁ huses

end Parser

end Reckon
