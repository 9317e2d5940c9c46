import SpectralAlgebra.Expr
import SpectralAlgebra.Proofs.Numbering

/-!
# What a name can be read as

The name of an expression does not show how its chains are grouped: `(a + b) + c` and `a + (b + c)`
are both called `a + b + c`. Nothing else is lost. Let `Expr.flat` be what becomes of an expression
when chains of sums and chains of products are made flat. Two expressions have the same name
exactly if they have the same flat form (`Expr.name_readable`), provided that leaves of one identity
have one raw name and that no raw name has an identity in it (`Legible`).

Raw names may hold anything else, blanks, operators and parentheses included. So a text is taken
apart from its identities: what is before the first of them is the name of the first leaf and the
parentheses before it (`NodeId.first_unique`). That gives the tokens of the name, and a reader that
keeps a sum and a product for every open parenthesis makes the flat form of the tokens
(`Flat.ofTokens_tokens`).
-/

namespace SpectralAlgebra

variable {D R : Type}

/-! ## Flat forms -/

/-- An expression whose sums and products have any number of parts. -/
inductive Flat where
  | leaf (name : String) (id : NodeId)
  | chain (o : Operator) (parts : List Flat)

namespace Flat

/-- The parts that a flat form has in a chain of an operator. -/
def links (o : Operator) : Flat → List Flat
  | leaf name id => [.leaf name id]
  | chain o' parts => if o' = o then parts else [.chain o' parts]

def join (o : Operator) (f g : Flat) : Flat := .chain o (f.links o ++ g.links o)

theorem links_chain (o : Operator) (parts : List Flat) : links o (chain o parts) = parts :=
  if_pos rfl

theorem join_assoc (o : Operator) (f g h : Flat) :
    join o (join o f g) h = join o f (join o g h) := by
  simp only [join, links_chain, List.append_assoc]

end Flat

def Expr.flat : Expr D R → Flat
  | leaf l => .leaf l.name l.id
  | op _ o _ lh rh => .join o lh.flat rh.flat

/-! ## Tokens -/

inductive Token where
  | leaf (name : String) (id : NodeId)
  | operator (o : Operator)
  | opening
  | closing

namespace Token

def chars : Token → List Char
  | leaf name id => name.toList ++ '_' :: id.hex.toList
  | operator o => ' ' :: o.symbol.toList ++ [' ']
  | opening => ['(']
  | closing => [')']

/-- The tokens of an operand, in parentheses if it is a sum under a product. -/
def enclose (o : Operator) (isSum : Bool) (ts : List Token) : List Token :=
  if o = .mul ∧ isSum then opening :: ts ++ [closing] else ts

def id? : Token → Option NodeId
  | leaf _ id => some id
  | _ => none

theorem ids_enclose (o : Operator) (isSum : Bool) (ts : List Token) :
    (enclose o isSum ts).filterMap id? = ts.filterMap id? := by
  unfold enclose
  split
  · simp [id?, List.filterMap_cons]
  · rfl

end Token

namespace Expr

def tokens : Expr D R → List Token
  | leaf l => [.leaf l.name l.id]
  | op _ o _ lh rh =>
    Token.enclose o lh.isSum lh.tokens ++ .operator o :: Token.enclose o rh.isSum rh.tokens

theorem toList_enclose (o : Operator) (e : Expr D R) {label : String} {ts : List Token}
    (h : label.toList = ts.flatMap Token.chars) :
    (enclose o e label).toList = (Token.enclose o e.isSum ts).flatMap Token.chars := by
  unfold enclose Token.enclose
  split
  · simp [Token.chars, h]
  · exact h

/-- A name is its tokens written out. -/
theorem toList_name : ∀ e : Expr D R, e.name.toList = e.tokens.flatMap Token.chars
  | leaf l => by simp [name, render, Leaf.taggedName, tag, tokens, Token.chars]
  | op _ o _ lh rh => by
    have hl := toList_enclose o lh (toList_name lh)
    have hr := toList_enclose o rh (toList_name rh)
    rw [name, render, ← name, ← name]
    simp only [String.toList_append, hl, hr, tokens, List.flatMap_append, List.flatMap_cons,
      Token.chars]
    simp

end Expr

/-! ## From tokens to flat forms -/

namespace Flat

/-- What is read between two parentheses: the sum of the finished parts and the product of the
factors since. -/
structure Frame where
  sum : Option Flat := none
  product : Option Flat := none

def after (o : Operator) : Option Flat → Flat → Flat
  | none, g => g
  | some f, g => join o f g

theorem after_join (o : Operator) (f : Option Flat) (g h : Flat) :
    after o (some (after o f g)) h = after o f (join o g h) := by
  cases f
  · rfl
  · exact join_assoc o _ g h

namespace Frame

def factor (f : Frame) (g : Flat) : Frame := { f with product := some (after .mul f.product g) }

def value (f : Frame) : Option Flat := f.product.map (after .add f.sum)

end Frame

/-- One token read, the innermost frame first. Factors are taken as they come, so the operator of a
product changes nothing. -/
def step : List Frame → Token → List Frame
  | f :: fs, .leaf name id => f.factor (.leaf name id) :: fs
  | f :: fs, .operator .add => ⟨f.value, none⟩ :: fs
  | fs, .opening => {} :: fs
  | f :: g :: fs, .closing => f.value.elim g g.factor :: fs
  | fs, _ => fs

def ofTokens (ts : List Token) : Option Flat :=
  (ts.foldl step [{}]).head?.bind Frame.value

/-- What reading the tokens of a form does. Between additions the form is one more factor, unless it
is a sum; after an addition it is one more part, though its last product may not be added yet. -/
structure Reads (isSum : Bool) (ts : List Token) (f : Flat) : Prop where
  factor : isSum = false → ∀ g fs, ts.foldl step (g :: fs) = g.factor f :: fs
  part : ∀ s fs, ∃ s' p, after .add s' p = after .add s f ∧
    ts.foldl step (⟨s, none⟩ :: fs) = ⟨s', some p⟩ :: fs

theorem Reads.enclose {isSum : Bool} {ts : List Token} {f : Flat} (h : Reads isSum ts f)
    (g : Frame) (fs : List Frame) :
    (Token.enclose .mul isSum ts).foldl step (g :: fs) = g.factor f :: fs := by
  cases isSum with
  | false => exact h.factor rfl g fs
  | true =>
    obtain ⟨s, p, hv, hr⟩ := h.part none (g :: fs)
    have hv : (Frame.mk s (some p)).value = some f := congrArg some hv
    rw [Token.enclose, if_pos ⟨rfl, rfl⟩]
    simp only [List.foldl_append, List.foldl_cons, List.foldl_nil]
    rw [show step (g :: fs) .opening = ⟨none, none⟩ :: g :: fs from rfl, hr]
    simp only [step, hv, Option.elim_some]

theorem reads_leaf (name : String) (id : NodeId) :
    Reads false [.leaf name id] (.leaf name id) where
  factor := fun _ _ _ => rfl
  part := fun s _ => ⟨s, _, rfl, rfl⟩

variable {a b : Bool} {ts us : List Token} {f g : Flat}

theorem Reads.add (h : Reads a ts f) (h' : Reads b us g) :
    Reads true (ts ++ .operator .add :: us) (join .add f g) where
  factor := fun h => by cases h
  part := fun s fs => by
    obtain ⟨s₁, p₁, hv, hr⟩ := h.part s fs
    obtain ⟨s₂, p₂, hv', hr'⟩ := h'.part (some (after .add s₁ p₁)) fs
    refine ⟨s₂, p₂, ?_, ?_⟩
    · rw [hv', hv, after_join]
    · rw [List.foldl_append, hr]
      exact hr'

theorem Reads.mul (h : Reads a ts f) (h' : Reads b us g) :
    Reads false (Token.enclose .mul a ts ++ .operator .mul :: Token.enclose .mul b us)
      (join .mul f g) := by
  have factor : ∀ k fs, (Token.enclose .mul a ts ++
      .operator .mul :: Token.enclose .mul b us).foldl step (k :: fs)
        = k.factor (join .mul f g) :: fs := by
    intro k fs
    rw [List.foldl_append, h.enclose, List.foldl_cons]
    rw [show step (k.factor f :: fs) (.operator .mul) = k.factor f :: fs from rfl, h'.enclose]
    simp only [Frame.factor, after_join]
  exact ⟨fun _ => factor, fun s fs => ⟨s, _, rfl, factor _ fs⟩⟩

theorem reads_tokens : ∀ e : Expr D R, Reads e.isSum e.tokens e.flat
  | .leaf l => reads_leaf l.name l.id
  | .op _ .add _ lh rh => (reads_tokens lh).add (reads_tokens rh)
  | .op _ .mul _ lh rh => (reads_tokens lh).mul (reads_tokens rh)

/-- The tokens of an expression are read as its flat form. -/
theorem ofTokens_tokens (e : Expr D R) : ofTokens e.tokens = some e.flat := by
  obtain ⟨s, p, hv, hr⟩ := (reads_tokens e).part none []
  rw [ofTokens, show ({} : Frame) = ⟨none, none⟩ from rfl, hr]
  exact congrArg some hv

/-! ## From flat forms to tokens -/

def isSum : Flat → Bool
  | chain .add _ => true
  | _ => false

mutual

def tokens : Flat → List Token
  | leaf name id => [.leaf name id]
  | chain o parts => chainTokens o parts

/-- The tokens of a chain's parts, with the operator between them. -/
def chainTokens (o : Operator) : List Flat → List Token
  | [] => []
  | [f] => Token.enclose o f.isSum (tokens f)
  | f :: g :: fs => Token.enclose o f.isSum (tokens f) ++ .operator o :: chainTokens o (g :: fs)

end

theorem chainTokens_append (o : Operator) : ∀ {fs gs : List Flat}, fs ≠ [] → gs ≠ [] →
    chainTokens o (fs ++ gs) = chainTokens o fs ++ .operator o :: chainTokens o gs
  | [], _, h, _ => absurd rfl h
  | [f], g :: gs, _, _ => by simp [chainTokens]
  | f :: f' :: fs, gs, _, hg => by
    have ih := chainTokens_append o (List.cons_ne_nil f' fs) hg
    simp only [List.cons_append] at ih
    simp only [List.cons_append, chainTokens, ih, List.append_assoc]

theorem isSum_flat : ∀ e : Expr D R, e.flat.isSum = e.isSum
  | .leaf _ => rfl
  | .op _ .add .. => rfl
  | .op _ .mul .. => rfl

theorem links_flat_ne_nil (o : Operator) : ∀ e : Expr D R, e.flat.links o ≠ []
  | .leaf _ => List.cons_ne_nil _ _
  | .op _ o' _ lh rh => by
    rw [Expr.flat, join, links]
    split
    · exact List.append_ne_nil_of_left_ne_nil (links_flat_ne_nil o' lh) _
    · exact List.cons_ne_nil _ _

/-- In a chain of its own operator an expression stands as the parts of its chain, in any other as
one part. -/
theorem chainTokens_links (o : Operator) {e : Expr D R} (h : e.flat.tokens = e.tokens) :
    chainTokens o (e.flat.links o) = Token.enclose o e.isSum e.tokens := by
  have one : chainTokens o [e.flat] = Token.enclose o e.isSum e.tokens := by
    rw [chainTokens, isSum_flat, h]
  rcases e with l | ⟨id, o', r, lh, rh⟩
  · exact one
  · rw [Expr.flat, join, links]
    split
    · rename_i ho
      subst ho
      have hne : ¬ (o' = .mul ∧ (Expr.op id o' r lh rh).isSum = true) := by
        rintro ⟨rfl, hs⟩
        cases hs
      rw [Token.enclose, if_neg hne, ← h]
      rfl
    · exact one

theorem tokens_flat : ∀ e : Expr D R, e.flat.tokens = e.tokens
  | .leaf _ => rfl
  | .op _ o _ lh rh => by
    rw [Expr.flat, join, tokens,
      chainTokens_append o (links_flat_ne_nil o lh) (links_flat_ne_nil o rh),
      chainTokens_links o (tokens_flat lh), chainTokens_links o (tokens_flat rh), Expr.tokens]

end Flat

/-- Tokens and flat forms hold the same. -/
theorem Expr.tokens_eq_iff {e e' : Expr D R} : e.tokens = e'.tokens ↔ e.flat = e'.flat := by
  constructor
  · intro h
    have hf := congrArg Flat.ofTokens h
    rw [Flat.ofTokens_tokens, Flat.ofTokens_tokens] at hf
    exact Option.some.inj hf
  · intro h
    rw [← Flat.tokens_flat e, h, Flat.tokens_flat e']

/-! ## From texts to tokens -/

namespace NodeId

theorem length_hex (x : NodeId) : x.hex.toList.length = 32 := by
  rw [hex, String.toList_ofList, length_hexDigits]

theorem digit_of_mem_hexDigits : ∀ {count n : Nat} {c : Char}, c ∈ hexDigits count n →
    ∃ d < 16, c = Nat.digitChar d
  | 0, _, _, h => by cases h
  | count + 1, n, c, h => by
    rcases List.mem_append.1 h with h | h
    · exact digit_of_mem_hexDigits h
    · exact ⟨n % 16, Nat.mod_lt _ (by decide), List.mem_singleton.1 h⟩

theorem not_mem_hex {c : Char} (hc : ∀ d < 16, c ≠ Nat.digitChar d) (x : NodeId) :
    c ∉ x.hex.toList := by
  intro h
  rw [hex, String.toList_ofList] at h
  obtain ⟨d, hd, rfl⟩ := digit_of_mem_hexDigits h
  exact hc d hd rfl

theorem underscore_not_mem_hex (x : NodeId) : '_' ∉ x.hex.toList := x.not_mem_hex (by decide)

theorem opening_not_mem_hex (x : NodeId) : '(' ∉ x.hex.toList := x.not_mem_hex (by decide)

theorem not_infix_append {x : NodeId} {t : List Char} (h : ¬ x.hex.toList <:+: t) :
    ∀ n : Nat, ¬ x.hex.toList <:+: List.replicate n '(' ++ t
  | 0 => h
  | n + 1 => by
    rw [List.replicate_succ, List.cons_append, List.infix_cons_iff]
    rintro (⟨s, hs⟩ | hi)
    · rcases hx : x.hex.toList with _ | ⟨c, cs⟩
      · exact absurd (congrArg List.length hx) (by rw [length_hex]; decide)
      · rw [hx] at hs
        obtain rfl := (List.cons.inj hs).1
        exact x.opening_not_mem_hex (hx ▸ List.mem_cons_self)
    · exact not_infix_append h n hi

/-- Of two marked places in a text the second is no later than the first, if what follows the first
mark is not found before the second. -/
theorem length_le_of_mark {u v u' v' m : List Char} (hm : '_' ∉ m)
    (h : u ++ '_' :: (m ++ v) = u' ++ '_' :: v') (hu : ¬ m <:+: u') : u'.length ≤ u.length := by
  refine Nat.le_of_not_lt fun hlt => ?_
  rcases List.append_eq_append_iff.1 h with ⟨w, rfl, hw⟩ | ⟨w, rfl, -⟩
  · rcases w with _ | ⟨c, w⟩
    · simp at hlt
    · obtain ⟨-, hw⟩ := List.cons.inj hw
      -- what follows the first mark ends before the second one or runs over it
      rcases List.append_eq_append_iff.1 hw with ⟨s, rfl, -⟩ | ⟨s, rfl, hs⟩
      · exact hu ⟨u ++ [c], s, by simp⟩
      · rcases s with _ | ⟨d, s⟩
        · exact hu ⟨u ++ [c], [], by simp⟩
        · obtain ⟨rfl, -⟩ := List.cons.inj hs
          exact hm (by simp)
  · simp only [List.length_append] at hlt
    omega

/-- The first identity in a text, and what is before and after it. -/
theorem first_unique {u v u' v' : List Char} {x y : NodeId}
    (h : u ++ '_' :: (x.hex.toList ++ v) = u' ++ '_' :: (y.hex.toList ++ v'))
    (hu : ¬ y.hex.toList <:+: u) (hu' : ¬ x.hex.toList <:+: u') : u = u' ∧ x = y ∧ v = v' := by
  have hlen : u.length = u'.length := Nat.le_antisymm
    (length_le_of_mark y.underscore_not_mem_hex h.symm hu)
    (length_le_of_mark x.underscore_not_mem_hex h hu')
  obtain ⟨hu, ht⟩ := List.append_inj h hlen
  obtain ⟨hx, hv⟩ := List.append_inj (List.cons.inj ht).2 (by rw [length_hex, length_hex])
  exact ⟨hu, hex_inj (String.toList_inj.1 hx), hv⟩

end NodeId

/-- Leaves that can be told from their tagged names wherever those stand: one identity has one raw
name, and no raw name has an identity in it. -/
structure Legible (ls : List (Leaf D)) : Prop where
  same_name : ∀ l ∈ ls, ∀ l' ∈ ls, l.id = l'.id → l.name = l'.name
  no_id : ∀ l ∈ ls, ∀ l' ∈ ls, ¬ l'.id.hex.toList <:+: l.name.toList

namespace Token

variable {ls : List (Leaf D)}

/-- A leaf's token is one of the leaves'. -/
def Among (ls : List (Leaf D)) : Token → Prop
  | leaf name id => ∃ l ∈ ls, l.name = name ∧ l.id = id
  | _ => True

/-- The tokens can stand where an operand is due or, with `false`, behind one. -/
def Alternate : Bool → List Token → Prop
  | true, .leaf _ _ :: ts => Alternate false ts
  | true, .opening :: ts => Alternate true ts
  | false, .closing :: ts => Alternate false ts
  | false, .operator _ :: ts => Alternate true ts
  | false, [] => True
  | _, _ => False

theorem alternate_enclose (o : Operator) (isSum : Bool) {ts : List Token}
    (h : ∀ rest, Alternate false rest → Alternate true (ts ++ rest)) (rest : List Token)
    (hr : Alternate false rest) : Alternate true (enclose o isSum ts ++ rest) := by
  unfold enclose
  split
  · rw [List.append_assoc, List.cons_append]
    exact h (closing :: rest) hr
  · exact h rest hr

theorem alternate_append : ∀ (e : Expr D R) (rest : List Token), Alternate false rest →
    Alternate true (e.tokens ++ rest)
  | .leaf _, _, h => h
  | .op _ o _ lh rh, rest, h => by
    have hr := alternate_enclose o rh.isSum (alternate_append rh) rest h
    rw [Expr.tokens, List.append_assoc, List.cons_append]
    exact alternate_enclose o lh.isSum (alternate_append lh) (.operator o :: _) hr

theorem alternate_tokens (e : Expr D R) : Alternate true e.tokens := by
  simpa using alternate_append e [] trivial

/-- Where an operand is due there is a leaf next, maybe in parentheses. -/
theorem exists_leading : ∀ {ts : List Token}, Alternate true ts → ∃ n name id rest,
    ts = List.replicate n .opening ++ .leaf name id :: rest ∧ Alternate false rest
  | .leaf name id :: ts, h => ⟨0, name, id, ts, rfl, h⟩
  | .opening :: ts, h => by
    have hdue : Alternate true ts := h
    obtain ⟨n, name, id, rest, rfl, hr⟩ := exists_leading hdue
    exact ⟨n + 1, name, id, rest, rfl, hr⟩

theorem flatMap_leading (n : Nat) (name : String) (id : NodeId) (rest : List Token) :
    (List.replicate n opening ++ leaf name id :: rest).flatMap chars
      = (List.replicate n '(' ++ name.toList) ++ '_' :: (id.hex.toList ++ rest.flatMap chars) := by
  have ho : (List.replicate n opening).flatMap chars = List.replicate n '(' := by
    induction n with
    | zero => rfl
    | succ n ih => rw [List.replicate_succ, List.flatMap_cons, ih]; rfl
  rw [List.flatMap_append, ho, List.flatMap_cons]
  simp [chars]

theorem toList_symbol : ∀ o : Operator, o.symbol.toList = [if o = .add then '+' else '*']
  | .add => String.toList_ofList
  | .mul => String.toList_ofList

theorem operator_unique {o o' : Operator} {ts us : List Token}
    (h : (operator o :: ts).flatMap chars = (operator o' :: us).flatMap chars) :
    o = o' ∧ ts.flatMap chars = us.flatMap chars := by
  simp only [List.flatMap_cons, chars, toList_symbol, List.cons_append, List.nil_append,
    List.cons.injEq, true_and] at h
  refine ⟨?_, h.2⟩
  cases o <;> cases o' <;> simp at h ⊢

section Unique

variable (h : Legible ls)
include h

theorem leading_unique {n n' : Nat} {name name' : String} {id id' : NodeId}
    {rest rest' : List Token} (ha : (leaf name id).Among ls) (ha' : (leaf name' id').Among ls)
    (ht : (List.replicate n opening ++ leaf name id :: rest).flatMap chars
      = (List.replicate n' opening ++ leaf name' id' :: rest').flatMap chars) :
    n = n' ∧ name = name' ∧ id = id' ∧ rest.flatMap chars = rest'.flatMap chars := by
  obtain ⟨l, hl, rfl, rfl⟩ := ha
  obtain ⟨l', hl', rfl, rfl⟩ := ha'
  rw [flatMap_leading, flatMap_leading] at ht
  obtain ⟨hu, hid, hv⟩ := NodeId.first_unique ht
    (NodeId.not_infix_append (h.no_id l hl l' hl') n)
    (NodeId.not_infix_append (h.no_id l' hl' l hl) n')
  have hname := h.same_name l hl l' hl' hid
  rw [hname] at hu
  have hn := congrArg List.length (List.append_cancel_right hu)
  rw [List.length_replicate, List.length_replicate] at hn
  exact ⟨hn, hname, hid, hv⟩

/-- The text behind an operand is that of one row of tokens only. -/
theorem eq_of_flatMap : ∀ {ts us : List Token}, Alternate false ts → Alternate false us →
    (∀ t ∈ ts, t.Among ls) → (∀ t ∈ us, t.Among ls) → ts.flatMap chars = us.flatMap chars → ts = us
  | [], [], _, _, _, _, _ => rfl
  | [], .closing :: _, _, _, _, _, ht | [], .operator _ :: _, _, _, _, _, ht
  | .closing :: _, [], _, _, _, _, ht | .operator _ :: _, [], _, _, _, _, ht
  | .closing :: _, .operator _ :: _, _, _, _, _, ht
  | .operator _ :: _, .closing :: _, _, _, _, _, ht => by simp [chars] at ht
  | .closing :: ts, .closing :: us, hts, hus, ha, ha', ht => by
    have hbehind : Alternate false ts := hts
    have hrest : ts = us := eq_of_flatMap hbehind hus
      (fun t h => ha t (List.mem_cons_of_mem _ h)) (fun t h => ha' t (List.mem_cons_of_mem _ h))
      (List.cons.inj ht).2
    rw [hrest]
  | .operator o :: ts, .operator o' :: us, hts, hus, ha, ha', ht => by
    obtain ⟨rfl, hbehind⟩ := operator_unique ht
    have hdue : Alternate true ts := hts
    have hdue' : Alternate true us := hus
    obtain ⟨n, name, id, rest, hl, hr⟩ := exists_leading hdue
    obtain ⟨n', name', id', rest', hl', hr'⟩ := exists_leading hdue'
    have hlt : rest.length < ts.length := by
      simp only [hl, List.length_append, List.length_cons]
      omega
    rw [hl, hl'] at hbehind
    obtain ⟨rfl, rfl, rfl, hv⟩ := leading_unique h (ha (leaf name id) (by simp [hl]))
      (ha' (leaf name' id') (by simp [hl'])) hbehind
    have hrest : rest = rest' := eq_of_flatMap hr hr' (fun t h => ha t (by simp [hl, h]))
      (fun t h => ha' t (by simp [hl', h])) hv
    rw [hl, hl', hrest]
termination_by ts => ts.length
decreasing_by all_goals simp only [List.length_cons]; omega

end Unique

theorem among_enclose (o : Operator) (isSum : Bool) {ts : List Token}
    (h : ∀ t ∈ ts, t.Among ls) : ∀ t ∈ enclose o isSum ts, t.Among ls := by
  unfold enclose
  split
  · simp only [List.cons_append, List.forall_mem_cons, List.forall_mem_append]
    exact ⟨trivial, h, trivial, by simp⟩
  · exact h

theorem among_tokens : ∀ {e : Expr D R}, (∀ l ∈ e.leaves, l ∈ ls) → ∀ t ∈ e.tokens, t.Among ls
  | .leaf l, h => by simpa [Expr.tokens, Among] using ⟨l, h l (List.mem_singleton_self l), rfl, rfl⟩
  | .op _ o _ lh rh, h => by
    have hl := among_enclose o lh.isSum (among_tokens fun l hl => h l (List.mem_append_left _ hl))
    have hr := among_enclose o rh.isSum (among_tokens fun l hl => h l (List.mem_append_right _ hl))
    simp only [Expr.tokens, List.forall_mem_append, List.forall_mem_cons]
    exact ⟨hl, trivial, hr⟩

end Token

namespace Expr

variable {ls : List (Leaf D)} {e e' : Expr D R}

theorem tokens_eq_of_name (h : Legible ls) (he : ∀ l ∈ e.leaves, l ∈ ls)
    (he' : ∀ l ∈ e'.leaves, l ∈ ls) (hn : e.name = e'.name) : e.tokens = e'.tokens := by
  have ht : e.tokens.flatMap Token.chars = e'.tokens.flatMap Token.chars := by
    rw [← toList_name, ← toList_name, hn]
  -- an addition in front makes the two stand behind an operand
  have hs : Token.operator .add :: e.tokens = .operator .add :: e'.tokens :=
    Token.eq_of_flatMap h
      (Token.alternate_tokens e) (Token.alternate_tokens e')
      (List.forall_mem_cons.2 ⟨trivial, Token.among_tokens he⟩)
      (List.forall_mem_cons.2 ⟨trivial, Token.among_tokens he'⟩)
      (by rw [List.flatMap_cons, List.flatMap_cons, ht])
  exact (List.cons.inj hs).2

/-- Names are read up to the grouping of chains. -/
theorem name_eq_iff (h : Legible ls) (he : ∀ l ∈ e.leaves, l ∈ ls)
    (he' : ∀ l ∈ e'.leaves, l ∈ ls) : e.name = e'.name ↔ e.flat = e'.flat := by
  constructor
  · intro hn
    exact tokens_eq_iff.1 (tokens_eq_of_name h he he' hn)
  · intro hf
    rw [← String.toList_inj, toList_name, toList_name, tokens_eq_iff.2 hf]

theorem ids_tokens : ∀ e : Expr D R, e.tokens.filterMap Token.id? = e.leaves.map Leaf.id
  | leaf _ => rfl
  | op _ o _ lh rh => by
    rw [tokens, List.filterMap_append, Token.ids_enclose, List.filterMap_cons_none rfl,
      Token.ids_enclose, ids_tokens lh, ids_tokens rh, leaves, List.map_append]

theorem ids_eq_of_flat (h : e.flat = e'.flat) : e.leaves.map Leaf.id = e'.leaves.map Leaf.id := by
  rw [← ids_tokens, ← ids_tokens, tokens_eq_iff.2 h]

/-- In a product a sum is one of the parts. -/
theorem links_of_isSum : ∀ {e : Expr D R}, e.isSum = true → e.flat.links .mul = [e.flat]
  | op _ .add .., _ => rfl

/-- Two expressions have the same name exactly if the same form is left when nested sums and nested
products are made flat. So a name shows the leaves in their order, and a sum under a product is read
as one of its factors. -/
theorem name_readable (e e' : Expr D R) (h : Legible (e.leaves ++ e'.leaves)) :
    (e.name = e'.name ↔ e.flat = e'.flat) ∧
    (e.name = e'.name → e.leaves.map Leaf.id = e'.leaves.map Leaf.id) ∧
    ∀ id r x y, e = .op id .mul r x y → e.name = e'.name →
      (x.isSum → ∃ factors, e'.flat = .chain .mul (x.flat :: factors)) ∧
      (y.isSum → ∃ factors, e'.flat = .chain .mul (factors ++ [y.flat])) := by
  have hname : e.name = e'.name ↔ e.flat = e'.flat :=
    name_eq_iff h (fun _ => List.mem_append_left _) (fun _ => List.mem_append_right _)
  refine ⟨hname, fun hn => ids_eq_of_flat (hname.1 hn), ?_⟩
  rintro id r x y rfl hn
  have hf : e'.flat = .chain .mul (x.flat.links .mul ++ y.flat.links .mul) := (hname.1 hn).symm
  constructor
  · intro hx
    exact ⟨y.flat.links .mul, by rw [hf, links_of_isSum hx, List.singleton_append]⟩
  · intro hy
    exact ⟨x.flat.links .mul, by rw [hf, links_of_isSum hy]⟩

end Expr

namespace Parameter

namespace Lookalike

def leaf (i : Nat) (name : String) : Leaf ParameterData :=
  ⟨.fresh i, name, name, ∅, ⟨1, .fixed 1, none⟩⟩

/-- The raw names read like parts of a larger name. -/
def a : Leaf ParameterData := leaf 0 "(x + y"

def b : Leaf ParameterData := leaf 1 "y) * (z"

def c : Leaf ParameterData := leaf 2 "z"

/-- The three leaves under two operators, the first two together or the last two. -/
def left (o o' : Operator) : Parameter :=
  .op (.fresh 4) o' () (.op (.fresh 3) o () (.leaf a) (.leaf b)) (.leaf c)

def right (o o' : Operator) : Parameter :=
  .op (.fresh 6) o () (.leaf a) (.op (.fresh 5) o' () (.leaf b) (.leaf c))

theorem legible (o o' : Operator) : Legible ((left o o').leaves ++ (right o o').leaves) where
  same_name := by
    have hname : ∀ l ∈ [a, b, c, a, b, c], l.name
        = if l.id = .fresh 0 then a.name else if l.id = .fresh 1 then b.name else c.name := by
      decide
    intro l hl l' hl' hid
    rw [hname l hl, hname l' hl', hid]
  no_id := by
    have hlen : ∀ l ∈ [a, b, c, a, b, c], l.name.toList.length < 32 := by decide
    intro l hl l' _ hi
    have hle := hi.length_le
    rw [NodeId.length_hex] at hle
    exact absurd (hlen l hl) (Nat.not_lt.2 hle)

end Lookalike

open Lookalike in
theorem name_readable_lookalike :
    Legible ((left .add .add).leaves ++ (right .add .add).leaves) ∧
      Legible ((left .add .mul).leaves ++ (right .add .mul).leaves) ∧
      (left .add .add).name = (right .add .add).name ∧
      (left .add .mul).name ≠ (right .add .mul).name := by
  have hsame := Expr.name_readable (left .add .add) (right .add .add) (legible .add .add)
  have hother := Expr.name_readable (left .add .mul) (right .add .mul) (legible .add .mul)
  refine ⟨legible .add .add, legible .add .mul, hsame.1.2 rfl, fun hn => ?_⟩
  cases hother.1.1 hn

end Parameter

end SpectralAlgebra
