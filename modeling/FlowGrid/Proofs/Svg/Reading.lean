import FlowGrid.Proofs.Document.Spelling
import FlowGrid.Proofs.Svg.Markup
import FlowGrid.Svg.Element

/-! Reading what was written. An escaped text holds no character of markup, and reading gives the
text back, in content and between quotes. From this each kind of element is read as the node
that it stands for, whatever its texts and attribute values are. -/

namespace FlowGrid

namespace Markup

open Svg

/-! ### Escaped characters -/

theorem toList_escape (s : String) :
    (escape s).toList = s.toList.flatMap fun c => (escapeChar c).toList := by
  simp [escape, String.toList_join, List.flatMap_map]

/-- An escaped character is written as a reference to it. -/
theorem exists_reference {c : Char} {entity : String} (h : entity? c = some entity) :
    ∃ name, entity.toList = '&' :: (name ++ [';']) ∧ (∀ d ∈ name, d ≠ ';' ∧ entity? d = none) ∧
      referenced? name = some c := by
  unfold entity? at h
  split at h <;> cases h
  · exact ⟨['a', 'm', 'p'], rfl, by simp [entity?], rfl⟩
  · exact ⟨['l', 't'], rfl, by simp [entity?], rfl⟩
  · exact ⟨['g', 't'], rfl, by simp [entity?], rfl⟩
  · exact ⟨['q', 'u', 'o', 't'], rfl, by simp [entity?], rfl⟩
  · exact ⟨['#', '3', '9'], rfl, by simp [entity?], rfl⟩

theorem reference?_append {name : List Char} {c : Char} (hname : ∀ d ∈ name, d ≠ ';')
    (h : referenced? name = some c) (rest : List Char) :
    reference? (name ++ ';' :: rest) = some (c, rest) := by
  have hrest : ∀ c, (';' :: rest).head? = some c → ¬ decide (c ≠ ';') := by simp
  obtain ⟨htake, hdrop⟩ := Tokens.takeWhile_append (by simpa using hname) hrest
  rw [reference?, hdrop, htake, h]
  rfl

/-- A character is written as itself, or as a reference from which it is read. -/
inductive Escapes (c : Char) : List Char → Prop
  | itself (h : entity? c = none) : Escapes c [c]
  | reference {name : List Char} (plain : ∀ d ∈ name, entity? d = none)
    (read : ∀ rest, reference? (name ++ ';' :: rest) = some (c, rest)) :
    Escapes c ('&' :: (name ++ [';']))

theorem escapes_escapeChar (c : Char) : Escapes c (escapeChar c).toList := by
  cases h : entity? c with
  | none =>
    rw [escapeChar, h, Option.getD_none, Char.toString_eq_singleton, String.toList_singleton]
    exact .itself h
  | some entity =>
    obtain ⟨name, hentity, hname, href⟩ := exists_reference h
    rw [escapeChar, h, Option.getD_some, hentity]
    exact .reference (fun d hd => (hname d hd).2)
      (reference?_append (fun d hd => (hname d hd).1) href)

/-- Of the characters with an entity only `&` is left where they are escaped. -/
theorem entity?_of_mem_escape {cs : List Char} {c : Char}
    (h : c ∈ cs.flatMap fun c => (escapeChar c).toList) : entity? c = none ∨ c = '&' := by
  obtain ⟨d, -, hc⟩ := List.mem_flatMap.mp h
  have hd := escapes_escapeChar d
  generalize (escapeChar d).toList = written at hd hc
  cases hd with
  | itself hentity =>
    rw [List.mem_singleton.mp hc]
    exact .inl hentity
  | reference plain read =>
    simp only [List.mem_cons, List.mem_append, List.not_mem_nil, or_false] at hc
    rcases hc with rfl | hc | rfl
    · exact .inr rfl
    · exact .inl (plain c hc)
    · exact .inl rfl

theorem escape_eq_self {s : String} (h : ∀ c ∈ s.toList, entity? c = none) : escape s = s := by
  rw [← String.toList_inj, toList_escape]
  have hself : ∀ c ∈ s.toList, (escapeChar c).toList = [c] := by
    intro c hc
    rw [escapeChar, h c hc, Option.getD_none, Char.toString_eq_singleton, String.toList_singleton]
  rw [List.flatMap_congr hself]
  exact List.flatMap_singleton' _

/-! ### Attribute values -/

theorem decode?_cons {c : Char} (h : entity? c = none) (cs : List Char) :
    decode? (c :: cs) = (decode? cs).map (c :: ·) := by
  have hlt : c ≠ '<' := by
    rintro rfl
    cases h
  have hamp : c ≠ '&' := by
    rintro rfl
    cases h
  rw [decode?, if_neg hlt, if_neg hamp]

theorem decode?_reference {c : Char} {cs rest : List Char}
    (h : reference? cs = some (c, rest)) :
    decode? ('&' :: cs) = (decode? rest).map (c :: ·) := by
  rw [decode?, if_neg (by decide), if_pos rfl]
  split
  · rename_i hnone
    cases hnone.symm.trans h
  · rename_i hsome
    cases hsome.symm.trans h
    rfl

/-- What was escaped is read back. -/
theorem decode?_escape (s : String) : decode? (escape s).toList = some s.toList := by
  rw [toList_escape]
  induction s.toList with
  | nil =>
    rw [List.flatMap_nil, decode?]
  | cons c cs ih =>
    rw [List.flatMap_cons]
    have hc := escapes_escapeChar c
    generalize (escapeChar c).toList = written at hc
    cases hc with
    | itself h => rw [List.singleton_append, decode?_cons h, ih, Option.map_some]
    | @reference name _ read =>
      rw [List.cons_append, List.append_assoc, List.singleton_append,
        decode?_reference (read _), ih, Option.map_some]

theorem value?_escape (s : String) (rest : List Char) :
    value? ('"' :: ((escape s).toList ++ '"' :: rest)) = some (s, rest) := by
  have hquote : ∀ c ∈ (escape s).toList, c ≠ '"' := by
    rintro c hc rfl
    rw [toList_escape] at hc
    rcases entity?_of_mem_escape hc with h | h <;> cases h
  have hrest : ∀ c, ('"' :: rest).head? = some c → ¬ decide (c ≠ '"') := by simp
  obtain ⟨htake, hdrop⟩ := Tokens.takeWhile_append (by simpa using hquote) hrest
  rw [value?, if_pos (.inl rfl), hdrop, htake, decode?_escape]
  simp

/-! ### Names and attributes -/

/-- A text that is read as a name. -/
def isName (name : String) : Bool :=
  match name.toList with
  | [] => false
  | c :: cs => isNameStart c && cs.all isNamePart

theorem not_isSpace_of_isNameStart {c : Char} (h : isNameStart c) : ¬ isSpace c := by
  intro hs
  simp only [isSpace, Bool.or_eq_true, decide_eq_true_eq] at hs
  rcases hs with ((rfl | rfl) | rfl) | rfl <;> exact absurd h (by decide)

theorem name?_append {name : String} (h : isName name) {rest : List Char}
    (hrest : ∀ c, rest.head? = some c → ¬ isNamePart c) :
    name? (name.toList ++ rest) = some (name, rest) := by
  unfold isName at h
  split at h
  · cases h
  · rename_i c cs hname
    obtain ⟨hstart, hpart⟩ := Bool.and_eq_true_iff.mp h
    obtain ⟨htake, hdrop⟩ := Tokens.takeWhile_append (List.all_eq_true.mp hpart) hrest
    rw [hname, List.cons_append, name?, if_pos hstart, htake, hdrop, ← hname, String.ofList_toList]

/-- The first character of a name is neither space nor a mark. -/
theorem exists_isNameStart {name : String} (h : isName name) :
    ∃ c cs, name.toList = c :: cs ∧ isNameStart c := by
  unfold isName at h
  split at h
  · cases h
  · rename_i c cs hname
    exact ⟨c, cs, hname, (Bool.and_eq_true_iff.mp h).1⟩

end Markup

namespace Svg.Attribute

open Markup

/-- The name and the value that an attribute gives to an element. -/
def pair : Attribute → String × String
  | plain name value => (name, value)
  | verbatim name value => (name, value)

/-- An attribute whose name is one, and whose value can stand as it is where it does. -/
def IsReadable : Attribute → Prop
  | plain name _ => isName name
  | verbatim name value => isName name ∧ ∀ c ∈ value.toList, entity? c = none

theorem toList_write {a : Attribute} (h : a.IsReadable) :
    a.write.toList =
      ' ' :: (a.pair.1.toList ++ '=' :: '"' :: ((escape a.pair.2).toList ++ ['"'])) := by
  cases a with
  | plain name value => simp [write, pair]
  | verbatim name value => simp [write, pair, escape_eq_self h.2]

theorem isName_of_isReadable {a : Attribute} (h : a.IsReadable) : isName a.pair.1 := by
  cases a with
  | plain name value => exact h
  | verbatim name value => exact h.1

end Svg.Attribute

namespace Markup

open Svg

theorem dropWhile_isSpace {c : Char} (h : ¬ isSpace c) (cs : List Char) :
    (c :: cs).dropWhile isSpace = c :: cs := by
  rw [List.dropWhile_cons, if_neg h]

theorem dropWhile_space (cs : List Char) :
    (' ' :: cs).dropWhile isSpace = cs.dropWhile isSpace := by
  rw [List.dropWhile_cons, if_pos (by decide)]

theorem attribute?_append {name : String} (hname : isName name) (value : String)
    (rest : List Char) :
    attribute? (name.toList ++ '=' :: '"' :: ((escape value).toList ++ '"' :: rest)) =
      some ((name, value), rest) := by
  rw [attribute?, name?_append hname (by rintro c ⟨⟩; decide), Option.bind_eq_bind,
    Option.bind_some]
  simp only [dropWhile_isSpace (by decide : ¬ isSpace '='),
    dropWhile_isSpace (by decide : ¬ isSpace '"'), value?_escape]
  rfl

theorem attributes?_cons {a : Attribute} (ha : a.IsReadable) (rest : List Char) :
    attributes? (a.write.toList ++ rest) =
      (attributes? rest).map fun (more, last) => (a.pair :: more, last) := by
  obtain ⟨c, cs, hname, hstart⟩ := exists_isNameStart (Attribute.isName_of_isReadable ha)
  have hskip : ((a.write.toList ++ rest).dropWhile isSpace) = a.pair.1.toList ++
      '=' :: '"' :: ((escape a.pair.2).toList ++ '"' :: rest) := by
    rw [Attribute.toList_write ha, List.cons_append, dropWhile_space, hname,
      List.cons_append, List.cons_append, dropWhile_isSpace (not_isSpace_of_isNameStart hstart)]
    simp
  have hattribute := attribute?_append (Attribute.isName_of_isReadable ha) a.pair.2 rest
  rw [← hskip] at hattribute
  have hmark (d : Char) (h : isNameStart d = false) (tail : List Char) :
      (a.write.toList ++ rest).dropWhile isSpace ≠ d :: tail := by
    rw [hskip, hname]
    rintro ⟨⟩
    rw [hstart] at h
    cases h
  rw [attributes?.eq_def]
  split
  · rename_i hdrop
    exact absurd hdrop (hmark '>' rfl _)
  · rename_i hdrop
    exact absurd hdrop (hmark '/' rfl _)
  · rw [if_pos (by rw [Attribute.toList_write ha]; rfl)]
    split
    · rename_i hnone
      cases hnone.symm.trans hattribute
    · rename_i hsome
      cases hsome.symm.trans hattribute
      rfl

/-- The attributes of a tag are read one after the other, up to its end. -/
theorem attributes?_append {attributes : List Attribute} (h : ∀ a ∈ attributes, a.IsReadable)
    {tail rest : List Char} {isEmpty : Bool} (htail : attributes? tail = some ([], isEmpty, rest)) :
    attributes? (attributes.flatMap (fun a => a.write.toList) ++ tail) =
      some (attributes.map Attribute.pair, isEmpty, rest) := by
  induction attributes with
  | nil => exact htail
  | cons a attributes ih =>
    rw [List.forall_mem_cons] at h
    rw [List.flatMap_cons, List.append_assoc, attributes?_cons h.1, ih h.2]
    rfl

theorem attributes?_end (rest : List Char) :
    attributes? ('>' :: rest) = some ([], false, rest) := by
  rw [attributes?.eq_def, dropWhile_isSpace (by decide)]
  rfl

theorem attributes?_emptyEnd (rest : List Char) :
    attributes? (' ' :: '/' :: '>' :: rest) = some ([], true, rest) := by
  rw [attributes?.eq_def, dropWhile_space, dropWhile_isSpace (by decide)]
  rfl

/-! ### Tags -/

/-- A tag that is read as it was written. -/
structure IsTag (tag : String) (attributes : List Attribute) : Prop where
  isName : isName tag
  readable : ∀ a ∈ attributes, a.IsReadable
  distinct : (attributes.map fun a => a.pair.1).Nodup

/-- What follows on the name in a tag does not go on with the name. -/
theorem name?_head {tag : String} {attributes : List Attribute} (h : IsTag tag attributes)
    {tail : List Char} (htail : ∀ c, tail.head? = some c → ¬ isNamePart c) :
    name? ((Element.head tag attributes).toList ++ tail) =
      some (tag, attributes.flatMap (fun a => a.write.toList) ++ tail) := by
  have hhead : (Element.head tag attributes).toList ++ tail =
      tag.toList ++ (attributes.flatMap (fun a => a.write.toList) ++ tail) := by
    simp [Element.head, String.toList_join, List.flatMap_map]
  rw [hhead]
  apply name?_append h.isName
  intro c hc
  cases attributes with
  | nil => exact htail c hc
  | cons a attributes =>
    rw [List.flatMap_cons, Attribute.toList_write (h.readable a List.mem_cons_self)] at hc
    cases hc
    decide

theorem opening?_head {tag : String} {attributes : List Attribute} (h : IsTag tag attributes)
    {tail rest : List Char} {isEmpty : Bool} (htail : attributes? tail = some ([], isEmpty, rest))
    (hhead : ∀ c, tail.head? = some c → ¬ isNamePart c) :
    opening? ((Element.head tag attributes).toList ++ tail) =
      some (if isEmpty then .empty tag (attributes.map Attribute.pair)
        else .opening tag (attributes.map Attribute.pair), rest) := by
  have hdistinct : ((attributes.map Attribute.pair).map Prod.fst).Nodup := by
    rw [List.map_map]
    exact h.distinct
  rw [opening?, name?_head h hhead, Option.bind_eq_bind, Option.bind_some]
  dsimp only
  rw [attributes?_append h.readable htail, Option.bind_eq_bind, Option.bind_some]
  exact if_pos hdistinct

/-- A tag that opens an element is read where it is written. -/
theorem token?_head {tag : String} {attributes : List Attribute} (h : IsTag tag attributes)
    (tail : List Char) : token? ('<' :: ((Element.head tag attributes).toList ++ tail)) =
      opening? ((Element.head tag attributes).toList ++ tail) := by
  obtain ⟨c, cs, hname, hstart⟩ := exists_isNameStart h.isName
  have hhead : (Element.head tag attributes).toList ++ tail =
      c :: (cs ++ (attributes.flatMap (fun a => a.write.toList) ++ tail)) := by
    simp [Element.head, String.toList_join, List.flatMap_map, hname]
  rw [hhead, token?]
  all_goals
    rintro cs' heq
    obtain rfl := (List.cons.inj heq).1
    cases hstart

theorem token?_opening {tag : String} {attributes : List Attribute} (h : IsTag tag attributes)
    (rest : List Char) : token? ((Element.opening tag attributes).toList ++ rest) =
      some (.opening tag (attributes.map Attribute.pair), rest) := by
  have hopening : (Element.opening tag attributes).toList ++ rest =
      '<' :: ((Element.head tag attributes).toList ++ '>' :: rest) := by
    simp [Element.opening]
  rw [hopening, token?_head h, opening?_head h (attributes?_end rest) (by rintro c ⟨⟩; decide)]
  rfl

theorem token?_closing {tag : String} (h : isName tag) (rest : List Char) :
    token? ((Element.closing tag).toList ++ rest) = some (.closing tag, rest) := by
  have hclosing : (Element.closing tag).toList ++ rest =
      '<' :: '/' :: (tag.toList ++ '>' :: rest) := by
    simp [Element.closing]
  rw [hclosing, token?, closing?, name?_append h (by rintro c ⟨⟩; decide), Option.bind_eq_bind,
    Option.bind_some]
  simp only [dropWhile_isSpace (by decide : ¬ isSpace '>')]

/-! ### Character data -/

/-- The end of a marked section. -/
def sectionEnd : List Char := [']', ']', '>']

theorem ne_sectionEnd {cs : List Char} (h : ¬ sectionEnd <:+: cs) (tail rest : List Char) :
    cs ++ '<' :: tail ≠ ']' :: ']' :: '>' :: rest := by
  intro heq
  match cs, h, heq with
  | [], _, heq => cases heq
  | [_], _, heq => cases heq
  | [_, _], _, heq => cases heq
  | _ :: _ :: _ :: cs, h, heq =>
    cases heq
    exact h ⟨[], cs, rfl⟩

theorem not_sectionEnd_infix {cs : List Char} (h : '>' ∉ cs) : ¬ sectionEnd <:+: cs :=
  fun hend => h (hend.subset (by decide))

theorem token?_data {c : Char} {cs : List Char} (hlt : c ≠ '<') (hamp : c ≠ '&')
    (hend : ∀ rest, c :: cs ≠ ']' :: ']' :: '>' :: rest) :
    token? (c :: cs) = some (.data [c], cs) := by
  unfold token?
  split
  all_goals simp_all

theorem token?_reference {c : Char} {cs rest : List Char} (h : reference? cs = some (c, rest)) :
    token? ('&' :: cs) = some (.data [c], rest) := by
  rw [token?, h]
  rfl

namespace Progress

theorem addData_nil (p : Progress) : p.addData [] = p := by
  rcases p with ⟨_ | ⟨_ | _, _⟩, _⟩ <;> simp [addData]

theorem addData_addData (p : Progress) (cs ds : List Char) :
    (p.addData cs).addData ds = p.addData (cs ++ ds) := by
  rcases p with ⟨_ | ⟨_ | _, _⟩, _⟩ <;> cases cs <;>
    simp [addData, add, String.ofList_append, String.append_assoc]

/-- Characters that are no markup are read as they are. -/
theorem run_data (p : Progress) {cs : List Char} (hplain : ∀ c ∈ cs, c ≠ '<' ∧ c ≠ '&')
    (hend : ¬ sectionEnd <:+: cs) (tail : List Char) :
    p.run (cs ++ '<' :: tail) = (p.addData cs).run ('<' :: tail) := by
  induction cs generalizing p with
  | nil => rw [addData_nil, List.nil_append]
  | cons c cs ih =>
    rw [List.forall_mem_cons] at hplain
    have htoken : token? (c :: (cs ++ '<' :: tail)) = some (.data [c], cs ++ '<' :: tail) :=
      token?_data hplain.1.1 hplain.1.2 (ne_sectionEnd hend tail)
    rw [List.cons_append, run_of_token? htoken rfl,
      ih _ hplain.2 fun h => hend (List.infix_cons h), addData_addData]
    rfl

/-- An escaped text is read as the text. -/
theorem run_escape (p : Progress) (s : String) (tail : List Char) :
    p.run ((escape s).toList ++ '<' :: tail) = (p.addData s.toList).run ('<' :: tail) := by
  rw [toList_escape]
  induction s.toList generalizing p with
  | nil => rw [addData_nil, List.flatMap_nil, List.nil_append]
  | cons c cs ih =>
    have hend : ¬ sectionEnd <:+: (c :: cs).flatMap fun c => (escapeChar c).toList := by
      refine not_sectionEnd_infix fun h => ?_
      rcases entity?_of_mem_escape h with h | h <;> cases h
    have hadd : (p.addData [c]).addData cs = p.addData (c :: cs) := addData_addData p [c] cs
    rw [List.flatMap_cons] at hend ⊢
    have hc := escapes_escapeChar c
    generalize (escapeChar c).toList = written at hc hend
    cases hc with
    | itself h =>
      have hlt : c ≠ '<' := by
        rintro rfl
        cases h
      have hamp : c ≠ '&' := by
        rintro rfl
        cases h
      let more := cs.flatMap fun c => (escapeChar c).toList
      have htoken : token? (c :: (more ++ '<' :: tail)) =
          some (.data [c], more ++ '<' :: tail) :=
        token?_data hlt hamp (ne_sectionEnd hend tail)
      rw [List.append_assoc, List.singleton_append, run_of_token? htoken rfl, ih, hadd]
    | reference plain read =>
      rw [List.cons_append, List.cons_append, List.append_assoc, List.append_assoc,
        List.singleton_append, run_of_token? (token?_reference (read _)) rfl, ih, hadd]

end Progress

/-! ### Content -/

/-- A text between two tags is read as the nodes. -/
def IsContent (inner : List Char) (nodes : List Node) : Prop :=
  ∀ frames tail, Progress.run ⟨[], frames⟩ (inner ++ '<' :: tail) =
    Progress.run ⟨nodes.reverse, frames⟩ ('<' :: tail)

/-- The nodes of a text alone; the empty one has none. -/
def textNodes (s : String) : List Node := if s.isEmpty then [] else [.text s]

theorem isContent_escape (s : String) : IsContent (escape s).toList (textNodes s) := by
  intro frames tail
  rw [Progress.run_escape]
  by_cases h : s = ""
  · rw [h]
    rfl
  · simp [textNodes, Progress.addData, Progress.add, h]

theorem isContent_data {cs : List Char} (hplain : ∀ c ∈ cs, c ≠ '<' ∧ c ≠ '&')
    (hend : ¬ sectionEnd <:+: cs) (hne : cs ≠ []) : IsContent cs [.text (String.ofList cs)] := by
  intro frames tail
  rw [Progress.run_data _ hplain hend]
  simp [Progress.addData, Progress.add, hne]

/-- An element is read from its tags and its content. -/
theorem run_element {tag : String} {attributes : List Attribute} (h : IsTag tag attributes)
    {inner : List Char} {nodes : List Node} (hinner : IsContent inner nodes) (p : Progress)
    (rest : List Char) :
    p.run ((Element.opening tag attributes).toList ++
        (inner ++ ((Element.closing tag).toList ++ rest))) =
      (p.add (.element tag (attributes.map Attribute.pair) nodes)).run rest := by
  obtain ⟨tail, htail⟩ : ∃ tail, (Element.closing tag).toList ++ rest = '<' :: tail :=
    ⟨'/' :: (tag.toList ++ '>' :: rest), by simp [Element.closing]⟩
  have hclose (frames : List Frame) : Progress.take? ⟨nodes.reverse,
      ⟨tag, attributes.map Attribute.pair, p.nodes⟩ :: frames⟩ (.closing tag) =
        some ⟨.element tag (attributes.map Attribute.pair) nodes :: p.nodes, frames⟩ := by
    simp [Progress.take?]
  rw [Progress.run_of_token? (token?_opening h _) rfl, htail, hinner, ← htail,
    Progress.run_of_token? (token?_closing h.isName rest) (hclose _)]
  rfl

end Markup

/-! ### Elements -/

namespace Svg.Element

open Markup

/-- An element is read as a node, whatever stands before and after it. -/
structure ReadAs (e : Element) (node : Markup.Node) : Prop where
  isElement : ∃ tag attributes children, node = .element tag attributes children
  run (p : Progress) (rest : List Char) :
    p.run (e.write.toList ++ rest) = (p.add node).run rest

theorem readAs_empty {tag : String} {attributes : List Attribute} (h : IsTag tag attributes) :
    (empty tag attributes).ReadAs (.element tag (attributes.map Attribute.pair) []) := by
  refine ⟨⟨_, _, _, rfl⟩, fun p rest => ?_⟩
  have hwrite : (empty tag attributes).write.toList ++ rest =
      '<' :: ((head tag attributes).toList ++ ' ' :: '/' :: '>' :: rest) := by
    simp [write]
  have htoken := opening?_head h (attributes?_emptyEnd rest) (by rintro c ⟨⟩; decide)
  rw [← token?_head h] at htoken
  rw [hwrite, Progress.run_of_token? htoken rfl]

/-- An element that is written as two tags around its content. -/
theorem readAs_of_content {e : Element} {tag : String} {attributes : List Attribute}
    {inner : List Char} {nodes : List Markup.Node} (h : IsTag tag attributes)
    (hwrite : e.write.toList = (opening tag attributes).toList ++ (inner ++ (closing tag).toList))
    (hinner : IsContent inner nodes) :
    e.ReadAs (.element tag (attributes.map Attribute.pair) nodes) := by
  refine ⟨⟨_, _, _, rfl⟩, fun p rest => ?_⟩
  rw [hwrite, List.append_assoc, List.append_assoc]
  exact run_element h hinner p rest

theorem readAs_text {tag : String} {attributes : List Attribute} (h : IsTag tag attributes)
    (content : String) : (text tag attributes content).ReadAs
      (.element tag (attributes.map Attribute.pair) (textNodes content)) := by
  refine readAs_of_content h ?_ (isContent_escape content)
  rw [write, String.toList_append, String.toList_append, List.append_assoc]

theorem isContent_joined {es : List Element} {nodes : List Markup.Node}
    (h : List.Forall₂ ReadAs es nodes) :
    IsContent (es.flatMap fun e => e.write.toList) nodes := by
  suffices hrun : ∀ before frames tail,
      Progress.run ⟨before, frames⟩ ((es.flatMap fun e => e.write.toList) ++ tail) =
        Progress.run ⟨nodes.reverse ++ before, frames⟩ tail by
    intro frames tail
    rw [hrun, List.append_nil]
  induction h with
  | nil => exact fun _ _ _ => rfl
  | cons he _ ih =>
    intro before frames tail
    rw [List.flatMap_cons, List.append_assoc, he.run, Progress.add, ih, List.reverse_cons,
      List.append_assoc]
    rfl

theorem readAs_joined {tag : String} {attributes : List Attribute} (h : IsTag tag attributes)
    {es : List Element} {nodes : List Markup.Node} (hes : List.Forall₂ ReadAs es nodes) :
    (joined tag attributes es).ReadAs (.element tag (attributes.map Attribute.pair) nodes) := by
  refine readAs_of_content h ?_ (isContent_joined hes)
  rw [write, writeAll_eq_map, String.toList_append, String.toList_append, String.toList_join,
    List.flatMap_map, List.append_assoc]

/-- Nodes with a line break before each of them and after the last one. -/
def onLines (nodes : List Markup.Node) : List Markup.Node :=
  nodes.flatMap (fun node => [.text "\n", node]) ++ [.text "\n"]

/-- A line break that does not go on with a text. -/
theorem addData_newline {p : Progress} (h : ∀ s, p.nodes.head? ≠ some (.text s)) :
    p.addData ['\n'] = p.add (.text "\n") := by
  rcases p with ⟨_ | ⟨_ | s, _⟩, _⟩
  · rfl
  · rfl
  · exact absurd rfl (h s)

theorem isContent_lines {es : List Element} {nodes : List Markup.Node}
    (h : List.Forall₂ ReadAs es nodes) :
    IsContent ((es.flatMap fun e => '\n' :: e.write.toList) ++ ['\n']) (onLines nodes) := by
  have hnewline {p : Progress} (hp : ∀ s, p.nodes.head? ≠ some (.text s)) (rest : List Char) :
      p.run ('\n' :: rest) = (p.add (.text "\n")).run rest := by
    rw [Progress.run_of_token? (token?_data (by decide) (by decide) (by simp)) rfl,
      addData_newline hp]
  -- a text right before a line break would take it up, so the nodes before must not end with one
  suffices hrun : ∀ before frames tail, (∀ s, before.head? ≠ some (Markup.Node.text s)) →
      Progress.run ⟨before, frames⟩ ((es.flatMap fun e => '\n' :: e.write.toList) ++ '\n' :: tail) =
        Progress.run ⟨(onLines nodes).reverse ++ before, frames⟩ tail by
    intro frames tail
    rw [List.append_assoc, List.singleton_append, hrun _ _ _ (by simp), List.append_nil]
  induction h with
  | nil => exact fun _ _ _ hbefore => hnewline hbefore _
  | @cons e node es nodes he _ ih =>
    intro before frames tail hbefore
    obtain ⟨tag, attributes, children, rfl⟩ := he.isElement
    rw [List.flatMap_cons, List.cons_append, List.cons_append, List.append_assoc,
      hnewline hbefore, he.run]
    dsimp only [Progress.add]
    rw [ih _ _ _ (by simp)]
    simp [onLines]

/-- The lines of a text with line breaks between them, the first and the last one apart. -/
theorem intercalate_lines (first : List Char) (more : List (List Char)) (last : List Char) :
    ['\n'].intercalate (first :: (more ++ [last])) =
      first ++ ((more.flatMap fun line => '\n' :: line) ++ ['\n'] ++ last) := by
  induction more generalizing first with
  | nil => simp [List.intercalate_cons_cons]
  | cons line more ih => simp [List.intercalate_cons_cons, ih]

theorem toList_lines (tag : String) (attributes : List Attribute) (es : List Element) :
    (lines tag attributes es).write.toList = (opening tag attributes).toList ++
      (((es.flatMap fun e => '\n' :: e.write.toList) ++ ['\n']) ++ (closing tag).toList) := by
  rw [write, writeAll_eq_map, String.toList_intercalate, List.cons_append, List.map_cons,
    List.map_append, List.map_map]
  exact (intercalate_lines _ _ _).trans (by rw [List.flatMap_map]; rfl)

theorem readAs_lines {tag : String} {attributes : List Attribute} (h : IsTag tag attributes)
    {es : List Element} {nodes : List Markup.Node} (hes : List.Forall₂ ReadAs es nodes) :
    (lines tag attributes es).ReadAs
      (.element tag (attributes.map Attribute.pair) (onLines nodes)) :=
  readAs_of_content h (toList_lines tag attributes es) (isContent_lines hes)

/-- A whole text that consists of an element. -/
theorem read_write {e : Element} {node : Markup.Node} (h : e.ReadAs node) :
    Markup.read e.write = some node := by
  obtain ⟨tag, attributes, children, rfl⟩ := h.isElement
  have hrun : Progress.start.run e.write.toList =
      some ⟨[.element tag attributes children], []⟩ := by
    rw [← List.append_nil e.write.toList, h.run, Progress.run]
    rfl
  rw [Markup.read, hrun]
  rfl

/-- A last line break does not count. -/
theorem read_writeLine {e : Element} {node : Markup.Node} (h : e.ReadAs node) :
    Markup.read (e.write ++ "\n") = some node := by
  obtain ⟨tag, attributes, children, rfl⟩ := h.isElement
  have hrun : Progress.start.run (e.write ++ "\n").toList =
      some ⟨[.text "\n", .element tag attributes children], []⟩ := by
    rw [String.toList_append, h.run]
    have hbreak : token? "\n".toList = some (.data ['\n'], []) := rfl
    rw [Progress.run_of_token? hbreak rfl, Progress.run]
    rfl
  rw [Markup.read, hrun]
  rfl

end Svg.Element
end FlowGrid
