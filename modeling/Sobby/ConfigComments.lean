import Sobby.ConfigTree

/-! Comments in a configuration document. The loader passes over the comments between elements,
but a comment inside character data ends the text it reads. -/
namespace ConfigComments

open Strings (Text)
open ConfigTree
open KeyedLists (storeAll storeAll_cons_eq_iff)

def joinNode : Node → List Node → List Node
  | .comment _, ns => ns
  | .text content, .text further :: ns => .text (content ++ further) :: ns
  | n, ns => n :: ns

mutual

def stripComments : List Node → List Node
  | [] => []
  | n :: ns => joinNode (stripNode n) (stripComments ns)

def stripNode : Node → Node
  | .element name children => .element name (stripComments children)
  | n => n

end

def textAhead : List Node → Text
  | .text content :: ns => content ++ textAhead ns
  | .comment _ :: ns => textAhead ns
  | _ => []

def textCutOff : List Node → Text
  | [] => []
  | .text _ :: ns => textAhead ns
  | _ :: ns => textCutOff ns

def nodeName : Node → Option Text
  | .element name _ => some name
  | _ => none

def elementNames (ns : List Node) : List Text := ns.filterMap nodeName

mutual

/-- No comment separates text that counts. An element that a later one of its name replaces is
free to hold anything. -/
def Uncut : List Node → Prop
  | [] => True
  | n :: ns => ((∃ name ∈ nodeName n, name ∈ elementNames ns) ∨ UncutNode n) ∧ Uncut ns

def UncutNode : Node → Prop
  | .element _ children =>
    match getChildText children with
    | none => Uncut children
    | some content =>
      if isWhiteSpace content then isWhiteSpace (textCutOff children) ∧ Uncut children
      else textCutOff children = []
  | _ => True

end

theorem isWhiteSpace_append (s t : Text) :
    isWhiteSpace (s ++ t) = (isWhiteSpace s && isWhiteSpace t) := by
  simp [isWhiteSpace]

theorem loadChild_joinNode (n : Node) (ns : List Node) :
    (joinNode n ns).filterMap loadChild = (n :: ns).filterMap loadChild := by
  cases n with
  | element name children => simp only [joinNode]
  | comment content => simp [joinNode, List.filterMap_cons, loadChild]
  | cdata content => simp only [joinNode]
  | text content =>
    cases ns with
    | nil => simp only [joinNode]
    | cons n ns => cases n <;> simp [joinNode, List.filterMap_cons, loadChild]

theorem loadChild_name (n : Node) : (loadChild n).map Prod.fst = nodeName n := by
  cases n with
  | element name children =>
    simp only [loadChild, nodeName]
    split
    · rfl
    · split <;> rfl
  | text content => rfl
  | comment content => rfl
  | cdata content => rfl

theorem keys_filterMap_loadChild (ns : List Node) :
    KeyedLists.keys (ns.filterMap loadChild) = elementNames ns := by
  rw [KeyedLists.keys, List.map_filterMap, elementNames]
  exact congrArg (fun f => ns.filterMap f) (funext loadChild_name)

theorem nodeName_stripNode (n : Node) : nodeName (stripNode n) = nodeName n := by
  cases n <;> simp [stripNode, nodeName]

theorem elementNames_stripComments (ns : List Node) :
    elementNames (stripComments ns) = elementNames ns := by
  induction ns with
  | nil => simp only [stripComments]
  | cons n ns ih =>
    have hjoin : elementNames (joinNode (stripNode n) (stripComments ns)) =
        elementNames (stripNode n :: stripComments ns) := by
      rw [← keys_filterMap_loadChild, ← keys_filterMap_loadChild, loadChild_joinNode]
    rw [stripComments, hjoin]
    simp only [elementNames, List.filterMap_cons, nodeName_stripNode] at ih ⊢
    rw [ih]

theorem joinNode_text (content : Text) (ns : List Node) :
    ∃ rest, joinNode (.text content) (stripComments ns) =
      .text (content ++ textAhead ns) :: rest := by
  induction ns generalizing content with
  | nil => exact ⟨[], by simp [stripComments, joinNode, textAhead]⟩
  | cons n ns ih =>
    cases n with
    | element name children =>
      refine ⟨.element name (stripComments children) :: stripComments ns, ?_⟩
      simp [stripComments, stripNode, joinNode, textAhead]
    | cdata content' =>
      refine ⟨.cdata content' :: stripComments ns, ?_⟩
      simp [stripComments, stripNode, joinNode, textAhead]
    | comment content' => simpa [stripComments, stripNode, joinNode, textAhead] using ih content
    | text content' =>
      obtain ⟨rest, hrest⟩ := ih content'
      have hstrip : stripComments (.text content' :: ns) =
          .text (content' ++ textAhead ns) :: rest := by
        rw [← hrest]
        simp [stripComments, stripNode]
      refine ⟨rest, ?_⟩
      rw [hstrip, textAhead, ← List.append_assoc, joinNode, List.append_assoc]

theorem getChildText_stripComments (ns : List Node) :
    getChildText (stripComments ns) = (getChildText ns).map (· ++ textCutOff ns) := by
  induction ns with
  | nil => simp [stripComments, getChildText]
  | cons n ns ih =>
    cases n with
    | element name children =>
      simpa [stripComments, stripNode, joinNode, getChildText, textCutOff] using ih
    | cdata content =>
      simpa [stripComments, stripNode, joinNode, getChildText, textCutOff] using ih
    | comment content =>
      simpa [stripComments, stripNode, joinNode, getChildText, textCutOff] using ih
    | text content =>
      obtain ⟨rest, hrest⟩ := joinNode_text content ns
      simp [stripComments, stripNode, hrest, getChildText, textCutOff]

mutual

theorem loadChild_stripNode_iff : (n : Node) →
    (loadChild (stripNode n) = loadChild n ↔ UncutNode n)
  | .element name children => by
    have hchildren := loadChildren_stripComments_iff children
    have htext := getChildText_stripComments children
    cases hc : getChildText children with
    | none =>
      simp only [hc, Option.map_none] at htext
      simp only [stripNode, loadChild, htext, hc, UncutNode]
      rw [← hchildren]
      simp
    | some content =>
      simp only [hc, Option.map_some] at htext
      simp only [stripNode, loadChild, htext, hc, UncutNode, isWhiteSpace_append]
      by_cases hb : isWhiteSpace content = true
      · by_cases hcut : isWhiteSpace (textCutOff children) = true
        · simp [hb, hcut, ← hchildren]
        · simp [hb, hcut]
      · simp [hb]
  | .text _ => by simp [stripNode, UncutNode]
  | .comment _ => by simp [stripNode, UncutNode]
  | .cdata _ => by simp [stripNode, UncutNode]

theorem loadChildren_stripComments_iff : (ns : List Node) →
    (loadChildren (stripComments ns) [] = loadChildren ns [] ↔ Uncut ns)
  | [] => by simp [stripComments, Uncut]
  | n :: ns => by
    have hnode := loadChild_stripNode_iff n
    have hrest := loadChildren_stripComments_iff ns
    have hnames := elementNames_stripComments ns
    rw [← keys_filterMap_loadChild, ← keys_filterMap_loadChild] at hnames
    have hname : (loadChild (stripNode n)).map Prod.fst = (loadChild n).map Prod.fst := by
      rw [loadChild_name, loadChild_name, nodeName_stripNode]
    simp only [loadChildren_eq_storeAll] at hrest ⊢
    rw [stripComments, loadChild_joinNode, Uncut, ← hrest, ← hnode, ← loadChild_name]
    cases hn : loadChild n with
    | none =>
      rw [hn] at hname
      have hs : loadChild (stripNode n) = none := Option.map_eq_none_iff.mp hname
      simp [List.filterMap_cons_none hn, List.filterMap_cons_none hs, hs]
    | some p =>
      obtain ⟨name, entry⟩ := p
      rw [hn, Option.map_some] at hname
      obtain ⟨⟨name', entry'⟩, hs, rfl⟩ := Option.map_eq_some_iff.mp hname
      rw [List.filterMap_cons_some hn, List.filterMap_cons_some hs, storeAll_cons_eq_iff hnames, hs,
        ← keys_filterMap_loadChild, hnames]
      simp

end

/-- Leaving the comments out changes nothing exactly where no comment separates text that
counts. -/
theorem comments_ignored_iff (root : Text) (children : List Node) :
    load (some (stripNode (.element root children))) = load (some (.element root children)) ↔
      Uncut children := by
  rw [stripNode, load, load]
  exact loadChildren_stripComments_iff children

/-- `<sobby><password>ab<!-- c -->cd</password></sobby>` below the root. -/
def commentedPassword : Node :=
  .element "sobby_config".toList [.element "sobby".toList [.element "password".toList
    [.text "ab".toList, .comment " c ".toList, .text "cd".toList]]]

def loadedPassword (doc : Node) : Option Text :=
  getValueChild (subParent (load (some doc)) "sobby".toList) "password".toList

theorem comment_cuts_password :
    loadedPassword commentedPassword = some "ab".toList ∧
      loadedPassword (stripNode commentedPassword) = some "abcd".toList ∧
      load (some (stripNode commentedPassword)) ≠ load (some commentedPassword) := by
  have hcut : loadedPassword commentedPassword = some "ab".toList := by decide
  have hwhole : loadedPassword (stripNode commentedPassword) = some "abcd".toList := by decide
  refine ⟨hcut, hwhole, ?_⟩
  intro h
  have : loadedPassword (stripNode commentedPassword) = loadedPassword commentedPassword := by
    rw [loadedPassword, h, loadedPassword]
  rw [hcut, hwhole] at this
  exact absurd this (by decide)

end ConfigComments
