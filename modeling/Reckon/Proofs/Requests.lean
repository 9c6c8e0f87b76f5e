import Reckon.Proofs.Descent

/-!
# Proofs — Requests

What can be asked of a parser, one thing after the other and whatever comes of it.  Parsing moves
the cursor and notes what it does, and nothing else (`Parser.Trail`); so it never goes back and
keeps the table of operators.

* `Request.descend_eq`: a descent that begins with no expression open does what is asked as the
  parser does, and ends with none open, whether it fails or not.
* `Descent.askAll_eq`: so does every run of requests.

The strengths of a table have 32 bits and keep to them (`Parser.fits_askAll`).
-/

namespace Reckon

/-! ### Trails -/

namespace Parser

variable {σ : Type} [ItemStream σ] {α β : Type} {p q : Parser σ}

/-- There is a trail from one parser to the other: moves of the cursor, whether they succeed or not,
and notes. -/
inductive Trail : Parser σ → Parser σ → Prop where
  | here (p : Parser σ) : Trail p p
  | move {p q : Parser σ} (h : advance p = .ok () q) : Trail p q
  | skip {p q : Parser σ} {e : ParseError} (h : advance p = .error e q) : Trail p q
  | note (p : Parser σ) (e : Event) : Trail p (p.note e)
  | trans {p q r : Parser σ} (h : Trail p q) (h' : Trail q r) : Trail p r

/-- The table stays along a trail. -/
theorem Trail.operators_eq (h : Trail p q) : q.operators = p.operators := by
  induction h with
  | here p => rfl
  | move h => exact operators_of_advance h
  | skip h =>
      obtain ⟨x, -, -, rfl⟩ := advance_eq_error h
      rfl
  | note p e => rfl
  | trans _ _ ih ih' => exact ih'.trans ih

/-- A trail does not lead back. -/
theorem Trail.remaining_le (h : Trail p q) : q.remaining ≤ p.remaining := by
  induction h with
  | here p => exact Nat.le_refl _
  | @move p q h =>
      have hle := remaining_advance_le p
      rw [h] at hle
      exact hle
  | @skip p q e h =>
      have hlt := remaining_advance_le p
      rw [h] at hlt
      exact Nat.le_of_lt hlt
  | note p e => exact Nat.le_refl _
  | trans _ _ ih ih' => exact Nat.le_trans ih' ih

/-- Whatever comes of the work, it leaves a trail. -/
def Trails (m : ParseM σ α) : Prop :=
  ∀ p, match m p with
    | .ok _ q => Trail p q
    | .error _ q => Trail p q

theorem Trails.pure (a : α) : Trails (Pure.pure a : ParseM σ α) := fun p => .here p

theorem Trails.throw (e : ParseError) : Trails (throw e : ParseM σ α) := fun p => .here p

theorem Trails.get : Trails (get : ParseM σ (Parser σ)) := fun p => .here p

theorem Trails.note (e : Event) : Trails (modify (·.note e) : ParseM σ PUnit) := fun p => .note p e

theorem Trails.bind {m : ParseM σ α} {f : α → ParseM σ β} (hm : Trails m)
    (hf : ∀ a, Trails (f a)) : Trails (m >>= f) := by
  intro p
  have h := hm p
  simp only [Bind.bind, EStateM.bind]
  cases hp : m p with
  | error e q => rw [hp] at h; exact h
  | ok a q =>
      rw [hp] at h
      have h' := hf a q
      simp only
      cases hq : f a q with
      | ok b r => rw [hq] at h'; exact .trans h h'
      | error e r => rw [hq] at h'; exact .trans h h'

theorem Trails.map {m : ParseM σ α} (hm : Trails m) (f : α → β) : Trails (f <$> m) := by
  rw [← bind_pure_comp]
  exact .bind hm fun _ => .pure _

theorem trails_require (wanted : Token) (error : Token → ParseError) (found : Token) :
    Trails (σ := σ) (require wanted error found) := by
  unfold require
  split
  · exact .pure _
  · exact .throw _

theorem trails_advance : Trails (σ := σ) advance := by
  intro p
  cases h : advance p with
  | ok u q => exact .move h
  | error e q => exact .skip h

theorem trails_next : Trails (σ := σ) next :=
  .bind trails_advance fun _ => .bind .get fun _ => .pure _

theorem trails_peek : Trails (σ := σ) peek :=
  .bind .get fun p => by
    split
    · exact .pure _
    · exact trails_next

theorem trails_take : Trails (σ := σ) take :=
  .bind trails_peek fun _ => .bind trails_advance fun _ => .pure _

theorem trails_parameters (read : List String) : Trails (σ := σ) (parameters read) := by
  intro p
  fun_induction parameters read p with
  | case1 read p e q h => exact .skip h
  | case2 read p u q h x hx ih =>
      cases hr : parameters (x :: read) q with
      | ok _ r => rw [hr] at ih; exact .trans (.move h) ih
      | error _ r => rw [hr] at ih; exact .trans (.move h) ih
  | case3 read p u q h _ => exact .move h

theorem trails_prototype : Trails (σ := σ) prototype :=
  .bind trails_peek fun t => by
    split
    · exact .bind trails_next fun _ => .bind (trails_require _ _ _) fun _ =>
        .bind (trails_parameters _) fun _ => .bind .get fun _ =>
        .bind (trails_require _ _ _) fun _ => .bind trails_advance fun _ => .pure _
    · exact .throw _

theorem trails_run (m : Machine) : Trails (σ := σ) m.run := by
  intro p
  fun_induction Machine.run m p with
  | case1 m p e hs => exact .here p
  | case2 m p e hs => exact .here p
  | case3 m p m' hs u q h ih =>
      cases hr : m'.run q with
      | ok _ r => rw [hr] at ih; exact .trans (.move h) ih
      | error _ r => rw [hr] at ih; exact .trans (.move h) ih
  | case4 m p m' hs e q h => exact .skip h

theorem trails_expression : Trails (σ := σ) expression :=
  .bind trails_peek fun _ => trails_run _

theorem trails_definition : Trails (σ := σ) definition :=
  .bind trails_take fun _ => .bind trails_prototype fun _ => .bind trails_expression fun _ =>
    .bind (.note _) fun _ => .pure _

theorem trails_declaration : Trails (σ := σ) declaration :=
  .bind trails_take fun _ => .bind trails_prototype fun _ => .bind (.note _) fun _ => .pure _

theorem trails_bareExpression : Trails (σ := σ) bareExpression :=
  .bind trails_expression fun _ => .bind (.note _) fun _ => .pure _

end Parser

/-! ### What is asked of a parser -/

/-- What can be asked of a parser. -/
inductive Request where
  | peek
  | next
  | expression
  | prototype
  | definition
  | declaration
  | bareExpression
  /-- give a character a strength -/
  | setStrength (op : Char) (strength : UInt32)
  /-- put another table in the place of the one there is -/
  | setTable (table : Char → Option UInt32)

/-- What a parser answers. -/
inductive Answer where
  | token (t : Token)
  | expr (e : Expr)
  | prototype (f : Prototype)
  | form (f : Form)
  | done

namespace Descent

variable {σ : Type} [ItemStream σ]

/-- Parse a definition. -/
def definition (calls : Nat) : DescentM σ Form := do
  let _ ← lift Parser.take
  let prototype ← lift Parser.prototype
  let body ← expression calls
  lift (modify (·.note (.parsedDefinition prototype.name)))
  return .definition { prototype, body }

/-- Parse an expression that stands for itself. -/
def bareExpression (calls : Nat) : DescentM σ Form := do
  let body ← expression calls
  lift (modify (·.note .parsedExpression))
  return .expression { prototype := .anonymous, body }

end Descent

namespace Request

variable {σ : Type} [ItemStream σ]

/-- What the parser does. -/
def parse : Request → ParseM σ Answer
  | .peek => .token <$> Parser.peek
  | .next => .token <$> Parser.next
  | .expression => .expr <$> Parser.expression
  | .prototype => .prototype <$> Parser.prototype
  | .definition => .form <$> Parser.definition
  | .declaration => .form <$> Parser.declaration
  | .bareExpression => .form <$> Parser.bareExpression
  | .setStrength op strength => do
    modify fun p => { p with operators := p.operators.set op strength.toNat }
    return .done
  | .setTable table => do
    modify fun p => { p with operators := fun c => (table c).map UInt32.toNat }
    return .done

/-- What the descent does: it is the one that parses expressions. -/
def descend (calls : Nat) : Request → DescentM σ Answer
  | .expression => .expr <$> Descent.expression calls
  | .definition => .form <$> Descent.definition calls
  | .bareExpression => .form <$> Descent.bareExpression calls
  | request => Descent.lift request.parse

end Request

/-! ### Descents that do what the parser does -/

namespace Descent

variable {σ : Type} {α β : Type} {p : Parser σ} {d : Nat}

/-- A descent goes on as the parser does where both have done the same so far. -/
theorem bind_eq_lift {x : DescentM σ α} {m : ParseM σ α} {f : α → DescentM σ β}
    {g : α → ParseM σ β} (hx : x ⟨p, d⟩ = lift m ⟨p, d⟩)
    (hf : ∀ a q, m p = .ok a q → f a ⟨q, d⟩ = lift (g a) ⟨q, d⟩) :
    (x >>= f) ⟨p, d⟩ = lift (m >>= g) ⟨p, d⟩ := by
  have hb : (x >>= f) ⟨p, d⟩ = (x ⟨p, d⟩).bind fun r => ExceptT.bindCont f r.1 r.2 := rfl
  have hg : (m >>= g) p = EStateM.bind m g p := rfl
  rw [hb, hx]
  simp only [lift, hg, EStateM.bind]
  cases hm : m p with
  | error e q => rfl
  | ok a q => exact hf a q hm

/-- What the descent gives is turned into something else. -/
theorem map_eq_lift {x : DescentM σ α} {m : ParseM σ α} (hx : x ⟨p, d⟩ = lift m ⟨p, d⟩)
    (f : α → β) : (f <$> x) ⟨p, d⟩ = lift (f <$> m) ⟨p, d⟩ := by
  rw [← bind_pure_comp, ← bind_pure_comp]
  exact bind_eq_lift hx fun _ _ _ => rfl

variable [ItemStream σ] {calls : Nat}

theorem definition_eq (hf : p.operators.Fits) (hn : 3 * p.remaining + 1 < calls) :
    definition calls ⟨p, 0⟩ = lift Parser.definition ⟨p, 0⟩ := by
  have htake := Parser.trails_take p
  refine bind_eq_lift rfl fun _ q hq => ?_
  rw [hq] at htake
  have hprototype := Parser.trails_prototype q
  refine bind_eq_lift rfl fun f r hr => ?_
  rw [hr] at hprototype
  have htrail : Parser.Trail p r := .trans htake hprototype
  have hle := htrail.remaining_le
  rw [← htrail.operators_eq] at hf
  exact bind_eq_lift (expression_eq r hf (by omega)) fun _ _ _ => rfl

theorem bareExpression_eq (hf : p.operators.Fits) (hn : 3 * p.remaining + 1 < calls) :
    bareExpression calls ⟨p, 0⟩ = lift Parser.bareExpression ⟨p, 0⟩ :=
  bind_eq_lift (expression_eq p hf hn) fun _ _ _ => rfl

end Descent

section Requests

variable {σ : Type} [ItemStream σ] {p : Parser σ} {calls : Nat}

/-- **A descent does what is asked of a parser as the parser does it**, and no expression stays
open. -/
theorem Request.descend_eq (request : Request) (hf : p.operators.Fits)
    (hn : 3 * p.remaining + 1 < calls) :
    request.descend calls ⟨p, 0⟩ = Descent.lift request.parse ⟨p, 0⟩ := by
  cases request with
  | expression => exact Descent.map_eq_lift (Descent.expression_eq p hf hn) _
  | definition => exact Descent.map_eq_lift (Descent.definition_eq hf hn) _
  | bareExpression => exact Descent.map_eq_lift (Descent.bareExpression_eq hf hn) _
  | _ => rfl

/-- The parser when it has been asked, whatever has come of it. -/
def Parser.ask (p : Parser σ) (request : Request) : Parser σ :=
  match request.parse p with
  | .ok _ q => q
  | .error _ q => q

/-- The descent when it has been asked, whatever has come of it. -/
def Descent.ask (calls : Nat) (d : Descent σ) (request : Request) : Option (Descent σ) :=
  (request.descend calls d).map Prod.snd

theorem Descent.ask_eq (request : Request) (hf : p.operators.Fits)
    (hn : 3 * p.remaining + 1 < calls) :
    Descent.ask calls ⟨p, 0⟩ request = some ⟨p.ask request, 0⟩ := by
  rw [Descent.ask, request.descend_eq hf hn, Descent.lift, Parser.ask]
  cases request.parse p with
  | ok a q => rfl
  | error e q => rfl

theorem Operators.Fits.set {ops : Operators} (hf : ops.Fits) (op : Char) (strength : UInt32) :
    (ops.set op strength.toNat).Fits := by
  intro c s hs
  by_cases hc : c = op
  · rw [Operators.set, if_pos hc] at hs
    cases hs
    exact strength.toNat_lt
  · rw [Operators.set, if_neg hc] at hs
    exact hf c s hs

theorem Operators.fits_map (table : Char → Option UInt32) :
    Operators.Fits fun c => (table c).map UInt32.toNat := by
  intro c s hs
  obtain ⟨strength, -, rfl⟩ := Option.map_eq_some_iff.mp hs
  exact strength.toNat_lt

theorem Parser.Trails.ask {request : Request} (h : Trails (σ := σ) request.parse) (p : Parser σ) :
    Trail p (p.ask request) := by
  have h := h p
  rw [Parser.ask]
  cases hr : request.parse p with
  | ok a q => rw [hr] at h; exact h
  | error e q => rw [hr] at h; exact h

/-- What is asked leaves a trail, or changes the table and nothing else; the strengths of the new
table have 32 bits if those of the old one do. -/
theorem Parser.ask_cases (p : Parser σ) (request : Request) :
    Trail p (p.ask request) ∨
      ∃ ops : Operators, (p.operators.Fits → ops.Fits) ∧
        p.ask request = { p with operators := ops } := by
  cases request with
  | peek => exact .inl (Trails.ask (.map trails_peek _) p)
  | next => exact .inl (Trails.ask (.map trails_next _) p)
  | expression => exact .inl (Trails.ask (.map trails_expression _) p)
  | prototype => exact .inl (Trails.ask (.map trails_prototype _) p)
  | definition => exact .inl (Trails.ask (.map trails_definition _) p)
  | declaration => exact .inl (Trails.ask (.map trails_declaration _) p)
  | bareExpression => exact .inl (Trails.ask (.map trails_bareExpression _) p)
  | setStrength op strength => exact .inr ⟨_, fun hf => hf.set op strength, rfl⟩
  | setTable table => exact .inr ⟨_, fun _ => Operators.fits_map table, rfl⟩

/-- Nothing that is asked makes a parser go back. -/
theorem Parser.remaining_ask_le (p : Parser σ) (request : Request) :
    (p.ask request).remaining ≤ p.remaining := by
  rcases p.ask_cases request with htrail | ⟨ops, -, hask⟩
  · exact htrail.remaining_le
  · rw [hask]
    exact Nat.le_refl _

theorem Parser.fits_ask (hf : p.operators.Fits) (request : Request) :
    (p.ask request).operators.Fits := by
  rcases p.ask_cases request with htrail | ⟨ops, hops, hask⟩
  · rwa [htrail.operators_eq]
  · rw [hask]
    exact hops hf

theorem Parser.fits_askAll (requests : List Request) (hf : p.operators.Fits) :
    (requests.foldl Parser.ask p).operators.Fits := by
  induction requests generalizing p with
  | nil => exact hf
  | cons request requests ih => exact ih (fits_ask hf request)

/-- However often it is asked, no expression stays open between what is asked. -/
theorem Descent.askAll_eq (requests : List Request) (hf : p.operators.Fits)
    (hn : 3 * p.remaining + 1 < calls) :
    requests.foldlM (Descent.ask calls) ⟨p, 0⟩ = some ⟨requests.foldl Parser.ask p, 0⟩ := by
  induction requests generalizing p with
  | nil => rfl
  | cons request requests ih =>
      have hle := p.remaining_ask_le request
      rw [List.foldlM_cons, List.foldl_cons, Descent.ask_eq request hf hn]
      exact ih (Parser.fits_ask hf request) (by omega)

end Requests

end Reckon
