import FlowGrid.Proofs.Document.Agreement

/-! Where readers stop. The tokens before a fault can be completed: what a reader has taken so
far goes on to the phrase that it looks for. A phrase is made of its own tokens and of nothing
after them, so it may be followed by anything, and what can be completed with one token more can
be completed. -/

namespace FlowGrid

variable {α β σ : Type}

/-! ### Phrases on their own -/

namespace Phrase

/-- The tokens are the phrase, whatever comes after them. -/
def Spans (P : Phrase α) (ts : List (Located Token)) (a : α) : Prop := ∀ us, P (ts ++ us) a us

/-- The phrase does not depend on what comes after it. -/
def IsLocal (P : Phrase α) : Prop :=
  ∀ ⦃ts : List (Located Token)⦄ ⦃a : α⦄ ⦃us : List (Located Token)⦄, P ts a us →
    ∃ before, ts = before ++ us ∧ P.Spans before a

theorem spans_token_iff {t : Token} {ts : List (Located Token)} :
    (∀ us, ∃ p, ts ++ us = ⟨t, p⟩ :: us) ↔ ∃ p, ts = [⟨t, p⟩] := by
  constructor
  · intro h
    obtain ⟨p, hp⟩ := h []
    exact ⟨p, by rwa [List.append_nil] at hp⟩
  · rintro ⟨p, rfl⟩ us
    exact ⟨p, rfl⟩

theorem spans_word_iff {ts : List (Located Token)} {name : String} :
    Phrase.word.Spans ts name ↔ ∃ p, ts = [⟨.word name, p⟩] := spans_token_iff

theorem spans_quote_iff {ts : List (Located Token)} {content : String} :
    Phrase.quote.Spans ts content ↔ ∃ p, ts = [⟨.quote content, p⟩] := spans_token_iff

theorem isLocal_word : IsLocal Phrase.word := by
  rintro _ name us ⟨p, rfl⟩
  exact ⟨[_], rfl, spans_word_iff.mpr ⟨p, rfl⟩⟩

theorem isLocal_quote : IsLocal Phrase.quote := by
  rintro _ content us ⟨p, rfl⟩
  exact ⟨[_], rfl, spans_quote_iff.mpr ⟨p, rfl⟩⟩

end Phrase

/-! ### Tokens that can be completed -/

/-- Some text spells the token. -/
def Token.IsSpelled (t : Token) : Prop := ∃ cs, ∀ p, Scans p cs [⟨t, p⟩]

theorem Token.isSpelled_word (c : Char) (more : List Char) (first : isWordStart c)
    (inside : more.all isWordPart) : (Token.word (String.ofList (c :: more))).IsSpelled :=
  ⟨c :: (more ++ []), fun _ => .word first (List.all_eq_true.mp inside) (by simp) (.finish _)⟩

theorem Token.isSpelled_quote : (Token.quote "").IsSpelled :=
  ⟨['"', '"'], fun _ => .quote .nil (.finish _)⟩

theorem Token.isSpelled_mark (c : Char) (h : !isBlank c && !isWordStart c && c != '"') :
    (Token.mark c).IsSpelled := by
  simp only [Bool.and_eq_true, Bool.not_eq_true', bne_iff_ne] at h
  obtain ⟨⟨visible, word⟩, quote⟩ := h
  exact ⟨[c], fun _ => .mark (by simp [visible]) (by simp) (by simp [word]) quote (.finish _)⟩

/-- Which tokens can be completed. They can if they can with one more, wherever it stands. -/
structure Viability where
  Holds : List (Located Token) → Prop
  extend {ts : List (Located Token)} {t : Token} (spelled : t.IsSpelled)
    (h : ∀ p, Holds (ts ++ [⟨t, p⟩])) : Holds ts

namespace Viability

variable {V : Viability}

/-- Which tokens can be completed behind those in `before`. -/
def after (V : Viability) (before : List (Located Token)) : Viability where
  Holds ts := V.Holds (before ++ ts)
  extend spelled h := V.extend spelled fun p => by simpa only [List.append_assoc] using h p

theorem after_holds {before ts : List (Located Token)} :
    (V.after before).Holds ts ↔ V.Holds (before ++ ts) := .rfl

theorem after_nil {before : List (Located Token)} (h : V.Holds before) :
    (V.after before).Holds [] := by
  rwa [after_holds, List.append_nil]

/-- The tokens of the phrase can be completed. -/
def Admits (V : Viability) (P : Phrase α) : Prop :=
  ∀ ⦃ts : List (Located Token)⦄ ⦃a : α⦄, P.Spans ts a → V.Holds ts

end Viability

/-! ### Faults -/

/-- The tokens with those in `before` in front of them. -/
def Tokens.behind (rest : Tokens) : List (Located Token) → Tokens
  | [] => rest
  | t :: before => .cons t.value t.position (rest.behind before)

theorem Tokens.behind_append (rest : Tokens) (ts us : List (Located Token)) :
    rest.behind (ts ++ us) = (rest.behind us).behind ts := by
  induction ts with
  | nil => rfl
  | cons t ts ih => rw [List.cons_append, behind, behind, ih]

theorem Tokens.ending_behind_toList (input : Tokens) :
    input.ending.behind input.toList = input := by
  induction input with
  | finish => rfl
  | broken => rfl
  | cons t p rest ih => exact congrArg (Tokens.cons t p) ih

theorem Tokens.eq_behind {input rest : Tokens} {before : List (Located Token)}
    (hlist : input.toList = before ++ rest.toList) (hending : rest.ending = input.ending) :
    input = rest.behind before := by
  rw [← input.ending_behind_toList, hlist, behind_append, ← hending, rest.ending_behind_toList]

namespace Viability

variable {V : Viability} {input : Tokens}

/-- The fault is reported at a token up to which the tokens can be completed, or is that of a
string that ends them, and they can be completed with any string in its place. -/
def Blames (V : Viability) (input : Tokens) (fault : Diagnostic) : Prop :=
  ∃ (before : List (Located Token)) (rest : Tokens), input = rest.behind before ∧
    (fault.position = rest.position ∧ V.Holds before ∨
      ∃ p, rest = .broken p fault ∧ ∀ content, V.Holds (before ++ [⟨.quote content, p⟩]))

/-- If reading `input` fails, it does so behind tokens that can be completed. -/
def Stops (V : Viability) (input : Tokens) (result : Except Diagnostic α) : Prop :=
  ∀ fault, result = .error fault → V.Blames input fault

namespace Stops

theorem ok {a : α} : V.Stops input (.ok a) := by
  rintro _ ⟨⟩

theorem here {fault : Diagnostic} (hposition : fault.position = input.position)
    (h : V.Holds []) : V.Stops input (.error fault : Except Diagnostic α) := by
  rintro _ ⟨⟩
  exact ⟨[], input, rfl, .inl ⟨hposition, h⟩⟩

theorem unexpected {wanted : String} (h : V.Holds []) :
    V.Stops input (.error (input.unexpected wanted) : Except Diagnostic α) := here rfl h

theorem behind {rest : Tokens} {before : List (Located Token)} {x : Except Diagnostic α}
    (heq : input = rest.behind before) (h : (V.after before).Stops rest x) : V.Stops input x := by
  intro fault hfault
  obtain ⟨more, last, rfl, hlast⟩ := h fault hfault
  refine ⟨before ++ more, last, by rw [heq, Tokens.behind_append], ?_⟩
  simpa only [after_holds, List.append_assoc] using hlast

theorem bind {x : Except Diagnostic α} {f : α → Except Diagnostic β} (hx : V.Stops input x)
    (hf : ∀ a, x = .ok a → V.Stops input (f a)) : V.Stops input (x >>= f) := by
  intro fault h
  rcases Result.bind_eq_error_iff.mp h with h | ⟨a, ha, h⟩
  · exact hx fault h
  · exact hf a ha fault h

/-- After a mark that comes next. -/
theorem of_mark {c : Char} {rest : Rest input} {x : Except Diagnostic α}
    (hm : Document.mark? c input = some rest)
    (h : ∀ p, (V.after [⟨.mark c, p⟩]).Stops rest.val x) : V.Stops input x := by
  obtain ⟨p, hlist, hending⟩ := toList_of_mark? hm
  have heq : input = rest.val.behind [⟨.mark c, p⟩] := Tokens.eq_behind hlist hending
  exact behind heq (h p)

/-- Where a mark has to come next. -/
theorem mark {c : Char} {wanted : String} {f : Rest input → Except Diagnostic α} (h : V.Holds [])
    (hf : ∀ p rest, (V.after [⟨.mark c, p⟩]).Stops rest.val (f rest)) :
    V.Stops input (Document.mark c wanted input >>= f) := by
  unfold Document.mark
  cases hm : Document.mark? c input with
  | none => exact unexpected h
  | some rest => exact of_mark hm fun p => hf p rest

/-- Where a word has to come next. A fault behind it may still be reported in front of it. -/
theorem word {wanted : String} {f : String × Rest input → Except Diagnostic α} (h : V.Holds [])
    (hf : ∀ name p rest, input = rest.val.behind [⟨.word name, p⟩] →
      V.Stops input (f (name, rest))) :
    V.Stops input (Document.word wanted input >>= f) := by
  rcases input with _ | _ | ⟨name | _ | _, p, rest⟩
  case cons.word => exact hf name p ⟨rest, _⟩ rfl
  all_goals exact unexpected h

end Stops
end Viability

/-! ### Readers -/

/-- The reader agrees with a phrase of its own and, when it fails, stops behind tokens that go on
to the phrase. -/
structure Locates {Q : Tokens → Tokens → Prop}
    (read : (input : Tokens) → Except Diagnostic (α × {rest : Tokens // Q input rest}))
    (P : Phrase α) (follow : List (Located Token) → Prop) : Prop where
  reads : Reads read P follow
  isLocal : P.IsLocal
  stops {V : Viability} (h : V.Admits P) (input : Tokens) : V.Stops input (read input)

namespace Locates

variable {V : Viability} {P : Phrase α} {F : List (Located Token) → Prop} {input : Tokens}

theorem of_iff {Q : Tokens → Tokens → Prop}
    {read : (input : Tokens) → Except Diagnostic (α × {rest : Tokens // Q input rest})}
    {P' : Phrase α} {F' : List (Located Token) → Prop} (h : Locates read P F)
    (hP : ∀ ts a us, P ts a us ↔ P' ts a us) (hF : ∀ us, F' us → F us) : Locates read P' F' := by
  obtain rfl : P = P' := funext fun ts => funext fun a => funext fun us => propext (hP ts a us)
  exact { h with reads := fun hts => .mono (h.reads hts) hF }

/-- After the phrase that a reader finds. -/
theorem seq {Q : Tokens → Tokens → Prop}
    {read : (input : Tokens) → Except Diagnostic (α × {rest : Tokens // Q input rest})}
    {f : α × {rest : Tokens // Q input rest} → Except Diagnostic β} (h : Locates read P F)
    (hV : V.Admits P)
    (hf : ∀ {before a}, P.Spans before a → ∀ rest, (V.after before).Stops rest.val (f (a, rest))) :
    V.Stops input (read input >>= f) := by
  refine .bind (h.stops hV input) fun ⟨a, rest⟩ heq => ?_
  obtain ⟨hP, hending⟩ := (h.reads rfl).sound heq
  obtain ⟨before, hlist, hspans⟩ := h.isLocal hP
  exact .behind (Tokens.eq_behind hlist hending) (hf hspans rest)

/-- A reader fails at the end of the tokens, so there is a phrase that it looks for. -/
theorem holds {read : Reader α} (h : Locates read P F) (hV : V.Admits P) : V.Holds [] := by
  cases hread : read (.finish .start) with
  -- fewer tokens than none would be left
  | ok found => exact absurd found.2.property (Nat.not_lt_zero _)
  | error fault =>
    obtain ⟨before, rest, heq, hrest⟩ := h.stops hV _ _ hread
    cases before with
    | cons => cases heq
    | nil =>
      cases heq
      rcases hrest with ⟨-, h⟩ | ⟨p, h, -⟩
      · exact h
      · cases h

theorem reading {read : Reader α} (h : Locates read P F) (f : α → β) :
    Locates (Document.reading f read) (fun ts b us => ∃ a, P ts a us ∧ b = f a) F where
  reads := Reads.reading h.reads f
  isLocal := by
    rintro ts _ us ⟨a, ha, rfl⟩
    obtain ⟨before, rfl, hspans⟩ := h.isLocal ha
    exact ⟨before, rfl, fun us => ⟨a, hspans us, rfl⟩⟩
  stops hV input :=
    h.seq (fun _ _ hspans => hV fun us => ⟨_, hspans us, rfl⟩) fun _ _ => .ok

end Locates

namespace Document

/-! ### Single tokens -/

theorem locates_word (wanted : String) : Locates (word wanted) Phrase.word Anything where
  reads := reads_word wanted
  isLocal := Phrase.isLocal_word
  stops {V} hV input := by
    have hword : V.Holds [] := V.extend (Token.isSpelled_word 'a' [] rfl rfl) fun p =>
      hV (Phrase.spans_word_iff.mpr ⟨p, rfl⟩)
    rcases input with _ | _ | ⟨_ | _ | _, p, rest⟩
    case cons.word => exact .ok
    all_goals exact .unexpected hword

theorem locates_quote : Locates quote Phrase.quote Anything where
  reads := reads_quote
  isLocal := Phrase.isLocal_quote
  stops {V} hV input := by
    have hquote (content : String) (p : Position) : V.Holds [⟨.quote content, p⟩] :=
      hV (Phrase.spans_quote_iff.mpr ⟨p, rfl⟩)
    have hnil : V.Holds [] := V.extend Token.isSpelled_quote (hquote "")
    rcases input with _ | ⟨p, fault⟩ | ⟨_ | _ | _, p, rest⟩
    case broken =>
      intro _ h
      cases h
      exact ⟨[], _, rfl, .inr ⟨p, rfl, fun content => hquote content p⟩⟩
    case cons.quote => exact .ok
    all_goals exact .unexpected hnil

theorem isSpelled_break {c : Char} (h : c ∈ [',', ';', ')', '}']) : (Token.mark c).IsSpelled := by
  simp only [List.mem_cons, List.not_mem_nil, or_false] at h
  rcases h with rfl | rfl | rfl | rfl <;> exact Token.isSpelled_mark _ rfl

theorem isSpelled_side (s : Side) : (Token.word s.name).IsSpelled := by
  cases s <;> exact Token.isSpelled_word _ [] rfl rfl

theorem locates_side : Locates side (fun ts s us => Phrase.word ts s.name us) Anything where
  reads := reads_side
  isLocal _ _ _ h := Phrase.isLocal_word h
  stops {V} hV input := by
    have hside : V.Holds [] := V.extend (isSpelled_side .north) fun p =>
      hV (a := .north) (Phrase.spans_word_iff.mpr ⟨p, rfl⟩)
    unfold side
    refine .word hside fun name p rest _ => ?_
    dsimp only
    cases Side.named? name with
    | none => exact .unexpected hside
    | some s => exact .ok

/-! ### Lists -/

section Items

variable {P : Phrase β} {close separator : Char}

theorem isLocal_separated (hP : P.IsLocal) : (Phrase.Separated separator close P).IsLocal := by
  intro ts as us h
  induction h with
  | @last _ _ a p item =>
    obtain ⟨before, rfl, hspans⟩ := hP item
    refine ⟨before ++ [⟨.mark close, p⟩], by simp, fun vs => ?_⟩
    rw [List.append_assoc]
    exact .last (hspans _)
  | @trailing _ _ a p q item =>
    obtain ⟨before, rfl, hspans⟩ := hP item
    refine ⟨before ++ [⟨.mark separator, p⟩, ⟨.mark close, q⟩], by simp, fun vs => ?_⟩
    rw [List.append_assoc]
    exact .trailing (hspans _)
  | @cons _ _ _ a _ p item _ ih =>
    obtain ⟨before, rfl, hspans⟩ := hP item
    obtain ⟨more, rfl, hmore⟩ := ih
    refine ⟨before ++ ⟨.mark separator, p⟩ :: more, by simp, fun vs => ?_⟩
    rw [List.append_assoc]
    exact .cons (hspans _) (hmore vs)

theorem stops_items (val : β → α) (tag : β → σ) (R : σ → σ → Prop) {item : σ → Reader (α × σ)}
    (hitem : ∀ s, Locates (item s) (ItemAfter P val tag R s) AtBreak)
    (hclose : (Token.mark close).IsSpelled) (wanted : String) (s : σ) {V : Viability}
    (hV : V.Admits (ItemsAfter separator close P val tag R s)) (input : Tokens) :
    V.Stops input (items close separator wanted item s input) := by
  induction hsize : input.size using Nat.strong_induction_on generalizing V input s with
  | _ n ih =>
    subst hsize
    rw [items]
    -- the list may end behind its first item
    have hholds {before : List (Located Token)} {x : α × σ}
        (hx : (ItemAfter P val tag R s).Spans before x) : V.Holds before := by
      refine V.extend hclose fun p => hV (a := [x.1]) fun us => ?_
      obtain ⟨b, hb, hR, rfl⟩ := hx (⟨.mark close, p⟩ :: us)
      exact ⟨[b], by simpa using .last hb, .cons_cons hR (.singleton _), rfl⟩
    refine (hitem s).seq (fun _ _ hx => hholds hx) fun {before x} hx rest => ?_
    obtain ⟨a, s'⟩ := x
    dsimp only
    cases mark? close rest.val with
    | some closed => exact .ok
    | none =>
      refine .mark (Viability.after_nil (hholds hx)) fun p separated => ?_
      cases mark? close separated.val with
      | some closed => exact .ok
      | none =>
        have hlt : separated.val.size < input.size := separated.property.trans rest.property
        have hmore : ((V.after before).after [⟨.mark separator, p⟩]).Admits
            (ItemsAfter separator close P val tag R s') := by
          refine fun ts as h => hV (a := a :: as) fun us => ?_
          obtain ⟨bs, hbs, hchain, rfl⟩ := h us
          obtain ⟨b, hb, hR, heq⟩ := hx (⟨.mark separator, p⟩ :: (ts ++ us))
          cases heq
          exact ⟨b :: bs, by simpa using .cons hb hbs, .cons_cons hR hchain, rfl⟩
        exact .bind (ih _ hlt s' hmore _ rfl) fun _ _ => .ok

end Items

theorem locates_separated {item : Reader α} {P : Phrase α} (hitem : Locates item P AtBreak)
    (hP : IsUnmarked P) {close separator : Char} (hclose : close ∈ [',', ';', ')', '}'])
    (hseparator : separator ∈ [',', ';', ')', '}']) (hne : separator ≠ close) (wanted : String) :
    Locates (items close separator wanted (fun (_ : Unit) => reading (·, ()) item) ())
      (Phrase.Separated separator close P) Anything where
  reads := reads_separated hitem.reads hP hclose hseparator hne wanted
  isLocal := isLocal_separated hitem.isLocal
  stops {V} hV input := by
    have hitem' (_ : Unit) : Locates (reading (·, ()) item)
        (ItemAfter P id (fun _ => ()) (fun _ _ => True) ()) AtBreak :=
      (hitem.reading _).of_iff (fun ts x us => by simp only [ItemAfter, true_and, id]) fun _ => id
    refine stops_items id (fun _ => ()) (fun _ _ => True) hitem' (isSpelled_break hclose)
      wanted () (fun ts as h => hV (a := as) fun us => ?_) input
    obtain ⟨bs, hbs, -, rfl⟩ := h us
    rwa [List.map_id]

theorem isLocal_block {P : Phrase α} (hP : P.IsLocal) : (Phrase.Block P).IsLocal := by
  intro ts as us h
  induction h with
  | @close _ p => exact ⟨[⟨.mark '}', p⟩], rfl, fun vs => .close⟩
  | cons item _ ih =>
    obtain ⟨before, rfl, hspans⟩ := hP item
    obtain ⟨more, rfl, hmore⟩ := ih
    refine ⟨before ++ more, by simp, fun vs => ?_⟩
    rw [List.append_assoc]
    exact .cons (hspans _) (hmore vs)

theorem stops_block {item : Reader α} {P : Phrase α} (hitem : Locates item P Anything)
    {V : Viability} (hV : V.Admits (Phrase.Block P)) (input : Tokens) :
    V.Stops input (block item input) := by
  induction hsize : input.size using Nat.strong_induction_on generalizing V input with
  | _ n ih =>
    subst hsize
    have hbrace : (Token.mark '}').IsSpelled := Token.isSpelled_mark _ rfl
    rw [block]
    cases mark? '}' input with
    | some closed => exact .ok
    | none =>
      dsimp only
      split_ifs
      · exact .unexpected (V.extend hbrace fun p => hV (a := []) fun _ => .close)
      -- a brace may come behind the item, or more items
      · refine hitem.seq (fun before a h => V.extend hbrace fun p => hV (a := [a]) fun us => ?_)
          fun {before a} h rest => ?_
        · rw [List.append_assoc]
          exact .cons (h _) .close
        · have hmore : (V.after before).Admits (Phrase.Block P) := by
            refine fun more as hmore => hV (a := a :: as) fun us => ?_
            rw [List.append_assoc]
            exact .cons (h _) (hmore us)
          exact .bind (ih _ rest.property hmore _ rfl) fun _ _ => .ok

/-- Items up to a closing brace. -/
theorem locates_block {item : Reader α} {P : Phrase α} (hitem : Locates item P Anything)
    (hP : IsUnmarked P) : Locates (block item) (Phrase.Block P) Anything where
  reads := reads_block hitem.reads hP
  isLocal := isLocal_block hitem.isLocal
  stops := stops_block hitem

end Document
end FlowGrid
