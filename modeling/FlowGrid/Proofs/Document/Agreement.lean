import FlowGrid.Document.Reader
import FlowGrid.Proofs.Document.Grammar
import Mathlib.Data.List.Chain

/-! Readers and phrases. A reader agrees with a phrase when it finds exactly what the phrase says
of the tokens in front and otherwise reports that the text is malformed. A phrase may depend
on what follows it: then it is found where the next token cannot be taken for a part of it.
Readers that run one after the other agree with phrases that stand one after the other, and
lists with their items. -/

namespace FlowGrid

variable {α β σ : Type}

/-! ### Agreement -/

/-- The first of some tokens. -/
def first? (ts : List (Located Token)) : Option Token := ts.head?.map Located.value

/-- What is left behind all tokens. -/
def Tokens.ending : Tokens → Tokens
  | .cons _ _ rest => rest.ending
  | last => last

theorem Tokens.fault?_of_ending {rest input : Tokens} (h : rest.ending = input.ending) :
    rest.fault? = input.fault? := by
  have hending (ts : Tokens) : ts.ending.fault? = ts.fault? := by
    induction ts with
    | finish => rfl
    | broken => rfl
    | cons _ _ _ ih => exact ih
  rw [← hending rest, h, hending]

/-- Nothing is asked of the tokens after a phrase. -/
def Anything (_ : List (Located Token)) : Prop := True

/-- The result of reading `input` is what the phrase says of its tokens. Where `follow` fails of
the tokens after the phrase, the phrase need not be found. -/
structure Agrees (input : Tokens) {Q : Tokens → Prop}
    (result : Except Diagnostic (α × {rest : Tokens // Q rest}))
    (P : α → List (Located Token) → Prop) (follow : List (Located Token) → Prop) : Prop where
  sound {a : α} {rest : {rest : Tokens // Q rest}} (h : result = .ok (a, rest)) :
    P a rest.val.toList ∧ rest.val.ending = input.ending
  complete {a : α} {us : List (Located Token)} (h : P a us) (hf : follow us) :
    ∃ rest, result = .ok (a, rest) ∧ rest.val.toList = us
  refuses {fault : Diagnostic} (h : result = .error fault) :
    fault.IsMalformed ∨ input.fault? = some fault

/-- A reader agrees with a phrase. -/
def Reads {Q : Tokens → Tokens → Prop}
    (read : (input : Tokens) → Except Diagnostic (α × {rest : Tokens // Q input rest}))
    (P : Phrase α) (follow : List (Located Token) → Prop) : Prop :=
  ∀ {input : Tokens} {ts : List (Located Token)}, input.toList = ts →
    Agrees input (read input) (P ts) follow

theorem Tokens.isMalformed_unexpected (input : Tokens) (wanted : String) :
    (input.unexpected wanted).IsMalformed := .inl ⟨_, _, rfl⟩

theorem Tokens.exists_of_toList {input : Tokens} {t : Token} {p : Position}
    {us : List (Located Token)} (h : input.toList = ⟨t, p⟩ :: us) :
    ∃ rest, input = .cons t p rest ∧ rest.toList = us := by
  cases input with
  | finish => cases h
  | broken => cases h
  | cons _ _ rest =>
    cases h
    exact ⟨rest, rfl, rfl⟩

theorem Tokens.position_eq {input : Tokens} {t : Token} {p : Position} {us : List (Located Token)}
    (h : input.toList = ⟨t, p⟩ :: us) : input.position = p := by
  obtain ⟨rest, rfl, -⟩ := input.exists_of_toList h
  rfl

theorem Tokens.startsMark_iff {c : Char} {input : Tokens} :
    input.startsMark c ↔ first? input.toList = some (.mark c) := by
  rcases input with _ | _ | ⟨_ | _ | d, p, rest⟩
  all_goals simp [Tokens.startsMark, Tokens.toList, first?]
  exact eq_comm

theorem Tokens.startsWord_iff {input : Tokens} :
    input.startsWord ↔ ∃ name, first? input.toList = some (.word name) := by
  rcases input with _ | _ | ⟨_ | _ | d, p, rest⟩ <;>
    simp [Tokens.startsWord, Tokens.toList, first?]

theorem Tokens.startsString_of_quote {input : Tokens} {text : String} {p : Position}
    {us : List (Located Token)} (h : input.toList = ⟨.quote text, p⟩ :: us) :
    input.startsString := by
  obtain ⟨rest, rfl, -⟩ := input.exists_of_toList h
  rfl

theorem Tokens.not_startsString_of_word {input : Tokens} {name : String} {p : Position}
    {us : List (Located Token)} (h : input.toList = ⟨.word name, p⟩ :: us) :
    ¬ input.startsString := by
  obtain ⟨rest, rfl, -⟩ := input.exists_of_toList h
  exact Bool.false_ne_true

theorem Tokens.toList_of_atEnd {input : Tokens} (h : input.atEnd) : input.toList = [] := by
  cases input with
  | finish => rfl
  | broken => rfl
  | cons => cases h

theorem mark?_eq_none_iff {c : Char} {input : Tokens} :
    Document.mark? c input = none ↔ first? input.toList ≠ some (.mark c) := by
  rcases input with _ | _ | ⟨_ | _ | d, p, rest⟩ <;>
    simp [Document.mark?, Tokens.toList, first?, eq_comm]

theorem toList_of_mark? {c : Char} {input : Tokens} {rest : Rest input}
    (h : Document.mark? c input = some rest) :
    ∃ p, input.toList = ⟨.mark c, p⟩ :: rest.val.toList ∧ rest.val.ending = input.ending := by
  unfold Document.mark? at h
  split at h
  · rename_i d p input
    split_ifs at h with hd
    cases h
    exact ⟨p, by rw [hd]; rfl, rfl⟩
  · cases h

namespace Agrees

variable {input : Tokens} {Q Q' : Tokens → Prop}
  {x : Except Diagnostic (α × {rest : Tokens // Q rest})} {P P' : α → List (Located Token) → Prop}
  {F F' : List (Located Token) → Prop} {ts : List (Located Token)}

theorem imp (h : Agrees input x P F) (hsound : ∀ a us, P a us → P' a us)
    (hcomplete : ∀ a us, P' a us → F us → P a us) : Agrees input x P' F where
  sound heq := (h.sound heq).imp_left (hsound _ _)
  complete hu hf := h.complete (hcomplete _ _ hu hf) hf
  refuses := h.refuses

theorem of_iff (h : Agrees input x P F) (hP : ∀ a us, P a us ↔ P' a us) : Agrees input x P' F :=
  h.imp (fun a us => (hP a us).mp) fun a us hu _ => (hP a us).mpr hu

theorem mono (h : Agrees input x P F) (hF : ∀ us, F' us → F us) : Agrees input x P F' where
  sound := h.sound
  complete hu hf := h.complete hu (hF _ hf)
  refuses := h.refuses

theorem of_rest {r : Tokens} (h : Agrees r x P F) (hending : r.ending = input.ending) :
    Agrees input x P F where
  sound heq := (h.sound heq).imp_right (·.trans hending)
  complete := h.complete
  refuses heq := Tokens.fault?_of_ending hending ▸ h.refuses heq

theorem error {d : Diagnostic} (h : d.IsMalformed) (hP : ∀ a us, P a us → ¬ F us) :
    Agrees input (.error d : Except Diagnostic (α × {rest : Tokens // Q rest})) P F where
  sound heq := by cases heq
  complete hu hf := absurd hf (hP _ _ hu)
  refuses heq := by
    cases heq
    exact .inl h

theorem pure {a : α} {h : Q input} (hts : input.toList = ts) :
    Agrees input (.ok (a, ⟨input, h⟩)) (fun b us => b = a ∧ us = ts) F where
  sound heq := by
    cases heq
    exact ⟨⟨rfl, hts⟩, rfl⟩
  complete := by
    rintro _ _ ⟨rfl, rfl⟩ -
    exact ⟨_, rfl, hts⟩
  refuses heq := by cases heq

/-- One phrase after the other. -/
theorem bind
    {f : α × {rest : Tokens // Q rest} → Except Diagnostic (β × {rest : Tokens // Q' rest})}
    {K : α → List (Located Token) → β → List (Located Token) → Prop} (hx : Agrees input x P F)
    (hf : ∀ a rest us, rest.val.toList = us → Agrees rest.val (f (a, rest)) (K a us) F')
    (hF : ∀ a us b vs, K a us b vs → F' vs → F us) :
    Agrees input (x >>= f) (fun b vs => ∃ a us, P a us ∧ K a us b vs) F' where
  sound h := by
    obtain ⟨⟨a, rest⟩, h₁, h⟩ := Result.bind_eq_ok_iff.mp h
    obtain ⟨hP, hending⟩ := hx.sound h₁
    obtain ⟨hK, hending'⟩ := (hf a rest _ rfl).sound h
    exact ⟨⟨a, _, hP, hK⟩, hending'.trans hending⟩
  complete := by
    rintro b vs ⟨a, us, hP, hK⟩ hv
    obtain ⟨rest, h₁, rfl⟩ := hx.complete hP (hF _ _ _ _ hK hv)
    obtain ⟨last, h, hlast⟩ := (hf a rest _ rfl).complete hK hv
    exact ⟨last, Result.bind_eq_ok_iff.mpr ⟨_, h₁, h⟩, hlast⟩
  refuses h := by
    rcases Result.bind_eq_error_iff.mp h with h | ⟨⟨a, rest⟩, h₁, h⟩
    · exact hx.refuses h
    · rw [← Tokens.fault?_of_ending (hx.sound h₁).2]
      exact (hf a rest _ rfl).refuses h

/-- One phrase after another one that asks nothing of it. -/
theorem seq
    {f : α × {rest : Tokens // Q rest} → Except Diagnostic (β × {rest : Tokens // Q' rest})}
    {K : α → List (Located Token) → β → List (Located Token) → Prop}
    (hx : Agrees input x P Anything)
    (hf : ∀ a rest us, rest.val.toList = us → Agrees rest.val (f (a, rest)) (K a us) F) :
    Agrees input (x >>= f) (fun b vs => ∃ a us, P a us ∧ K a us b vs) F :=
  .bind hx hf fun _ _ _ _ _ _ => trivial

/-- After a mark that comes next. -/
theorem of_mark {c : Char} {rest : Rest input} (hm : Document.mark? c input = some rest)
    (hts : input.toList = ts) (h : ∀ p us, ts = ⟨.mark c, p⟩ :: us → rest.val.toList = us →
      Agrees rest.val x P F) : Agrees input x P F := by
  obtain ⟨p, hlist, hending⟩ := toList_of_mark? hm
  exact .of_rest (h p _ (hts.symm.trans hlist) rfl) hending

/-- After a mark that comes next and ends what is read. -/
theorem closed {c : Char} {rest : Rest input} {a : α} {h : Q rest.val}
    (hm : Document.mark? c input = some rest) (hts : input.toList = ts)
    (hP : ∀ p us, ts = ⟨.mark c, p⟩ :: us → P a us ∧ ∀ b vs, P b vs → b = a ∧ vs = us) :
    Agrees input (.ok (a, ⟨rest.val, h⟩)) P F := by
  refine .of_mark hm hts fun p us heq hus => .of_iff (.pure hus) fun b vs => ?_
  obtain ⟨ha, hunique⟩ := hP p us heq
  constructor
  · rintro ⟨rfl, rfl⟩
    exact ha
  · exact hunique b vs

/-- Where a mark has to come next, the phrase begins with it. -/
theorem afterMark {c : Char} {wanted : String}
    {f : Rest input → Except Diagnostic (α × {rest : Tokens // Q rest})} (hts : input.toList = ts)
    (hP : ∀ a us, P a us → F us → first? ts = some (.mark c))
    (hf : ∀ p rest us, ts = ⟨.mark c, p⟩ :: us → rest.val.toList = us →
      Agrees rest.val (f rest) P F) : Agrees input (Document.mark c wanted input >>= f) P F := by
  unfold Document.mark
  cases hm : Document.mark? c input with
  | none =>
    rw [mark?_eq_none_iff, hts] at hm
    exact .error (input.isMalformed_unexpected wanted) fun a us h hus => hm (hP a us h hus)
  | some rest => exact .of_mark hm hts fun p us heq hus => hf p rest us heq hus

/-- A phrase after a mark that has to come next. -/
theorem mark {c : Char} {wanted : String}
    {f : Rest input → Except Diagnostic (α × {rest : Tokens // Q rest})}
    {K : List (Located Token) → α → List (Located Token) → Prop} (hts : input.toList = ts)
    (hf : ∀ rest us, rest.val.toList = us → Agrees rest.val (f rest) (K us) F) :
    Agrees input (Document.mark c wanted input >>= f)
      (fun a vs => ∃ p us, ts = ⟨.mark c, p⟩ :: us ∧ K us a vs) F := by
  refine .afterMark hts ?_ fun p rest us heq hus => .of_iff (hf rest us hus) fun a vs => ?_
  · rintro a vs ⟨p, us, rfl, -⟩ -
    rfl
  · rw [heq]
    constructor
    · exact fun h => ⟨p, us, rfl, h⟩
    · rintro ⟨_, _, heq, h⟩
      cases heq
      exact h

/-- Where a word has to come next, the phrase begins with one. -/
theorem afterWord {wanted : String}
    {f : String × Rest input → Except Diagnostic (α × {rest : Tokens // Q rest})}
    (hts : input.toList = ts) (hP : ∀ a us, P a us → ∃ name, first? ts = some (.word name))
    (hf : ∀ name p rest us, ts = ⟨.word name, p⟩ :: us → rest.val.toList = us →
      Agrees rest.val (f (name, rest)) P F) :
    Agrees input (Document.word wanted input >>= f) P F := by
  subst hts
  rcases input with _ | _ | ⟨name | _ | _, p, rest⟩
  case cons.word => exact .of_rest (hf name p ⟨rest, Nat.lt_succ_self _⟩ _ rfl rfl) rfl
  all_goals
    refine .error (Tokens.isMalformed_unexpected _ wanted) fun a us h _ => ?_
    obtain ⟨name, hname⟩ := hP a us h
    cases hname

end Agrees

theorem Reads.reading {read : Reader α} {P : Phrase α} {F : List (Located Token) → Prop}
    (h : Reads read P F) (f : α → β) :
    Reads (Document.reading f read) (fun ts b us => ∃ a, P ts a us ∧ b = f a) F := by
  intro input ts hts
  refine .of_iff (.bind (h hts) (fun a rest us hus => .pure hus) fun a us b vs => ?_)
    fun b us => ?_
  · rintro ⟨-, rfl⟩ hv
    exact hv
  · constructor
    · rintro ⟨a, _, ha, rfl, rfl⟩
      exact ⟨a, ha, rfl⟩
    · rintro ⟨a, ha, rfl⟩
      exact ⟨a, us, ha, rfl, rfl⟩

namespace Document

/-! ### Single tokens -/

theorem reads_word (wanted : String) : Reads (word wanted) Phrase.word Anything := by
  rintro input _ rfl
  rcases input with _ | _ | ⟨name | _ | _, p, rest⟩
  case cons.word =>
    refine .of_rest (r := rest) (.of_iff (.pure rfl) fun a us => ?_) rfl
    simp [Phrase.word, Tokens.toList, eq_comm]
  all_goals
    exact .error (Tokens.isMalformed_unexpected _ wanted) (by simp [Phrase.word, Tokens.toList])

theorem reads_quote : Reads quote Phrase.quote Anything := by
  rintro input _ rfl
  rcases input with _ | ⟨p, fault⟩ | ⟨_ | content | _, p, rest⟩
  case broken =>
    exact {
      sound := fun heq => by cases heq
      complete := by
        rintro _ _ ⟨_, h⟩
        cases h
      refuses := fun heq => by
        cases heq
        exact .inr rfl }
  case cons.quote =>
    refine .of_rest (r := rest) (.of_iff (.pure rfl) fun a us => ?_) rfl
    simp [Phrase.quote, Tokens.toList, eq_comm]
  all_goals exact .error (Tokens.isMalformed_unexpected _ _) (by simp [Phrase.quote, Tokens.toList])

theorem eq_name_of_named? {name : String} {s : Side} (h : Side.named? name = some s) :
    name = s.name := by
  have hname : s.name = name := by simpa using List.find?_some h
  exact hname.symm

theorem reads_side : Reads side (fun ts s us => Phrase.word ts s.name us) Anything := by
  intro input ts hts
  refine .afterWord hts ?_ fun name p rest us heq hus => ?_
  · rintro s us ⟨p, rfl⟩
    exact ⟨_, rfl⟩
  · subst heq
    dsimp only
    cases hname : Side.named? name with
    | none =>
      refine .error (Tokens.isMalformed_unexpected _ _) ?_
      rintro s vs ⟨_, h⟩ -
      cases h
      cases hname.symm.trans s.named?_name
    | some s =>
      refine .of_iff (.pure hus) fun t vs => ?_
      constructor
      · rintro ⟨rfl, rfl⟩
        exact ⟨p, by rw [eq_name_of_named? hname]⟩
      · rintro ⟨q, h⟩
        cases h
        cases hname.symm.trans t.named?_name
        exact ⟨rfl, rfl⟩

/-! ### Lists -/

/-- A mark that ends an item of a list comes next. -/
def AtBreak (us : List (Located Token)) : Prop :=
  ∃ c ∈ [',', ';', ')', '}'], first? us = some (.mark c)

/-- The phrase begins with a token that is not a mark. -/
def IsUnmarked (P : Phrase α) : Prop :=
  ∀ {ts : List (Located Token)} {a : α} {us : List (Located Token)}, P ts a us →
    ts ≠ [] ∧ ∀ c, first? ts ≠ some (.mark c)

theorem isUnmarked_separated {P : Phrase α} {close separator : Char} (hP : IsUnmarked P) :
    IsUnmarked (Phrase.Separated separator close P) := by
  intro ts as us h
  cases h with
  | last item => exact hP item
  | trailing item => exact hP item
  | cons item => exact hP item

section Items

/-- An item that may come behind the state `s`, and the state that it leaves. -/
def ItemAfter (P : Phrase β) (val : β → α) (tag : β → σ) (R : σ → σ → Prop) (s : σ) :
    Phrase (α × σ) :=
  fun ts x us => ∃ b, P ts b us ∧ R s (tag b) ∧ x = (val b, tag b)

/-- A list of items, the first of which may come behind the state `s` and each other one behind
the state that the one before it leaves. -/
def ItemsAfter (separator close : Char) (P : Phrase β) (val : β → α) (tag : β → σ)
    (R : σ → σ → Prop) (s : σ) : Phrase (List α) :=
  fun ts as us => ∃ bs, Phrase.Separated separator close P ts bs us ∧
    (s :: bs.map tag).IsChain R ∧ as = bs.map val

variable {P : Phrase β} {val : β → α} {tag : β → σ} {R : σ → σ → Prop} {close separator : Char}

/-- What comes after a separator that stands behind the item `a`: the end of the list, or more
items, which may follow the state `s`. -/
inductive Continues (P : Phrase β) (val : β → α) (tag : β → σ) (R : σ → σ → Prop)
    (close separator : Char) (a : α) (s : σ) : Phrase (List α)
  | close {us : List (Located Token)} {p : Position} :
    Continues P val tag R close separator a s (⟨.mark close, p⟩ :: us) [a] us
  | more {us vs : List (Located Token)} {bs : List β}
    (h : Phrase.Separated separator close P us bs vs) (chain : (s :: bs.map tag).IsChain R) :
    Continues P val tag R close separator a s us (a :: bs.map val) vs

/-- What comes after the item `a`. -/
inductive Follows (P : Phrase β) (val : β → α) (tag : β → σ) (R : σ → σ → Prop)
    (close separator : Char) (a : α) (s : σ) : Phrase (List α)
  | close {us : List (Located Token)} {p : Position} :
    Follows P val tag R close separator a s (⟨.mark close, p⟩ :: us) [a] us
  | separator {us vs : List (Located Token)} {as : List α} {p : Position}
    (h : Continues P val tag R close separator a s us as vs) :
    Follows P val tag R close separator a s (⟨.mark separator, p⟩ :: us) as vs

theorem exists_follows_iff {ts vs : List (Located Token)} {as : List α} {s : σ} :
    (∃ x us, ItemAfter P val tag R s ts x us ∧
      Follows P val tag R close separator x.1 x.2 us as vs) ↔
    ItemsAfter separator close P val tag R s ts as vs := by
  constructor
  · rintro ⟨_, us, ⟨b, hb, hR, rfl⟩, h⟩
    cases h with
    | close => exact ⟨[b], .last hb, .cons_cons hR (.singleton _), rfl⟩
    | separator h =>
      cases h with
      | close => exact ⟨[b], .trailing hb, .cons_cons hR (.singleton _), rfl⟩
      | more h hchain => exact ⟨b :: _, .cons hb h, .cons_cons hR hchain, rfl⟩
  · rintro ⟨bs, h, hchain, rfl⟩
    cases h with
    | last item =>
      exact ⟨_, _, ⟨_, item, (List.isChain_cons_cons.mp hchain).1, rfl⟩, .close⟩
    | trailing item =>
      exact ⟨_, _, ⟨_, item, (List.isChain_cons_cons.mp hchain).1, rfl⟩, .separator .close⟩
    | cons item rest =>
      obtain ⟨hR, hchain⟩ := List.isChain_cons_cons.mp hchain
      exact ⟨_, _, ⟨_, item, hR, rfl⟩, .separator (.more rest hchain)⟩

/-- Items with a separator between them: `tag` is the state that an item leaves behind, and an
item is read after those that it may follow by `R`. -/
theorem agrees_items (val : β → α) (tag : β → σ) (R : σ → σ → Prop)
    {item : σ → Reader (α × σ)}
    (hitem : ∀ s, Reads (item s) (ItemAfter P val tag R s) AtBreak)
    (hP : IsUnmarked P) (hclose : close ∈ [',', ';', ')', '}'])
    (hseparator : separator ∈ [',', ';', ')', '}']) (hne : separator ≠ close) (wanted : String)
    (s : σ) : Reads (items close separator wanted item s)
      (ItemsAfter separator close P val tag R s) Anything := by
  intro input ts hts
  induction hsize : input.size using Nat.strong_induction_on generalizing input ts s with
  | _ n ih =>
    subst hsize
    rw [items]
    refine .of_iff (.bind (hitem s hts) (fun x rest us hus =>
      (?_ : Agrees _ _ (Follows P val tag R close separator x.1 x.2 us) _)) ?_)
      fun as vs => exists_follows_iff
    · obtain ⟨a, s'⟩ := x
      dsimp only
      cases hm : mark? close rest.val with
      | some closed =>
        refine .closed hm hus fun p vs heq => ?_
        subst heq
        refine ⟨.close, fun as ws h => ?_⟩
        cases h with
        | close => exact ⟨rfl, rfl⟩
        | separator => exact absurd rfl hne
      | none =>
        rw [mark?_eq_none_iff, hus] at hm
        refine .of_iff (.mark hus fun separated vs hvs =>
          (?_ : Agrees _ _ (Continues P val tag R close separator a s' vs) _)) fun as vs => ?_
        -- the separator may be the last one, for which the list has to end behind it
        · cases hm' : mark? close separated.val with
          | some closed =>
            refine .closed hm' hvs fun p ws heq => ?_
            subst heq
            refine ⟨.close, fun as ws h => ?_⟩
            cases h with
            | close => exact ⟨rfl, rfl⟩
            | more h => exact absurd rfl ((isUnmarked_separated hP h).2 close)
          | none =>
            rw [mark?_eq_none_iff, hvs] at hm'
            have hlt : separated.val.size < input.size :=
              separated.property.trans rest.property
            refine .of_iff (.seq (ih _ hlt s' hvs rfl) fun more last ws hws =>
              (.pure hws : Agrees _ _ (fun as xs => as = a :: more ∧ xs = ws) _)) fun as ws => ?_
            constructor
            · rintro ⟨_, _, ⟨bs, h, hchain, rfl⟩, rfl, rfl⟩
              exact .more h hchain
            · intro h
              cases h with
              | close => exact absurd rfl hm'
              | more h hchain => exact ⟨_, _, ⟨_, h, hchain, rfl⟩, rfl, rfl⟩
        · constructor
          · rintro ⟨p, us, rfl, h⟩
            exact .separator h
          · intro h
            cases h with
            | close => exact absurd rfl hm
            | separator h => exact ⟨_, _, rfl, h⟩
    · intro x us as vs h _
      cases h with
      | close => exact ⟨close, hclose, rfl⟩
      | separator => exact ⟨separator, hseparator, rfl⟩

end Items

/-- Items with a separator between them that pass on nothing. -/
theorem reads_separated {item : Reader α} {P : Phrase α} (hitem : Reads item P AtBreak)
    (hP : IsUnmarked P) {close separator : Char} (hclose : close ∈ [',', ';', ')', '}'])
    (hseparator : separator ∈ [',', ';', ')', '}']) (hne : separator ≠ close) (wanted : String) :
    Reads (items close separator wanted (fun (_ : Unit) => reading (·, ()) item) ())
      (Phrase.Separated separator close P) Anything := by
  intro input ts hts
  have hitem' (_ : Unit) : Reads (reading (·, ()) item)
      (ItemAfter P id (fun _ => ()) (fun _ _ => True) ()) AtBreak := by
    intro input ts hts
    refine .of_iff (hitem.reading _ hts) fun x us => ?_
    simp only [ItemAfter, true_and, id]
  refine .of_iff (agrees_items id (fun _ => ()) (fun _ _ => True) hitem' hP hclose hseparator hne
    wanted () hts) fun as us => ?_
  constructor
  · rintro ⟨bs, h, -, rfl⟩
    rwa [List.map_id]
  · exact fun h => ⟨as, h, (List.pairwise_of_forall fun _ _ => trivial).isChain, as.map_id.symm⟩

/-- Items up to a closing brace. -/
theorem reads_block {item : Reader α} {P : Phrase α} (hitem : Reads item P Anything)
    (hP : IsUnmarked P) : Reads (block item) (Phrase.Block P) Anything := by
  intro input ts hts
  induction hsize : input.size using Nat.strong_induction_on generalizing input ts with
  | _ n ih =>
    subst hsize
    rw [block]
    cases hm : mark? '}' input with
    | some closed =>
      refine .closed hm hts fun p us heq => ?_
      subst heq
      refine ⟨.close, fun as vs h => ?_⟩
      cases h with
      | close => exact ⟨rfl, rfl⟩
      | cons item => exact absurd rfl ((hP item).2 '}')
    | none =>
      rw [mark?_eq_none_iff, hts] at hm
      dsimp only
      split_ifs with hend
      · refine .error (Tokens.isMalformed_unexpected _ _) fun as us h _ => ?_
        cases h with
        | close => exact hm rfl
        | cons item => exact (hP item).1 (hts ▸ Tokens.toList_of_atEnd hend)
      · refine .of_iff (.seq (hitem hts) fun a rest us hus => .seq (ih _ rest.property hus rfl)
          fun more last vs hvs =>
            (.pure hvs : Agrees _ _ (fun as xs => as = a :: more ∧ xs = vs) _)) fun as vs => ?_
        constructor
        · rintro ⟨a, us, ha, more, _, h, rfl, rfl⟩
          exact .cons ha h
        · intro h
          cases h with
          | close => exact absurd rfl hm
          | cons item rest => exact ⟨_, _, item, _, _, rest, rfl, rfl⟩

end Document
end FlowGrid
