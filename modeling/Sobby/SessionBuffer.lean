import Sobby.Strings

/-! The obby server buffer as the autosavers see it: the documents of the session, in the
order `document_begin` to `document_end` visits them, with their titles and texts. -/
namespace SessionBuffer

open Strings (Text)

/-- The address of a document's `DocumentInfo`. A freed address may be used again. -/
abbrev DocumentInfo := ℕ

structure Document where
  title : Text
  text : Text
  deriving DecidableEq, Repr

/-- What a file holds: a serialised session, the text of one document, or a broken rest of
a write that did not finish. -/
inductive FileContent where
  | session (documents : List Document)
  | text (text : Text)
  | damaged
  deriving DecidableEq, Repr

structure ServerBuffer where
  documents : List DocumentInfo
  document : DocumentInfo → Document
  nodup : documents.Nodup

theorem one_nodup : ([1] : List DocumentInfo).Nodup := by decide

theorem two_nodup : ([1, 2] : List DocumentInfo).Nodup := by decide

def ServerBuffer.session (b : ServerBuffer) : List Document := b.documents.map b.document

/-- `document_create`: the new record lives at an address that is not in use. -/
def ServerBuffer.insert (b : ServerBuffer) (d : DocumentInfo) (doc : Document) :
    Option ServerBuffer :=
  if h : d ∈ b.documents then none
  else some
    { documents := b.documents ++ [d]
      document := Function.update b.document d doc
      nodup := by
        rw [List.nodup_append_comm]
        exact List.nodup_cons.mpr ⟨h, b.nodup⟩ }

def ServerBuffer.remove (b : ServerBuffer) (d : DocumentInfo) : Option ServerBuffer :=
  if d ∈ b.documents then
    some { b with documents := b.documents.erase d, nodup := b.nodup.erase d }
  else none

def ServerBuffer.change (b : ServerBuffer) (d : DocumentInfo) (text : Text) :
    Option ServerBuffer :=
  if d ∈ b.documents then
    some { b with document := Function.update b.document d { b.document d with text := text } }
  else none

theorem insert_spec {b b' : ServerBuffer} {d : DocumentInfo} {doc : Document}
    (h : b.insert d doc = some b') : d ∉ b.documents ∧ b'.documents = b.documents ++ [d] ∧
      b'.document = Function.update b.document d doc := by
  unfold ServerBuffer.insert at h
  split at h
  · cases h
  · next hd =>
    cases h
    exact ⟨hd, rfl, rfl⟩

theorem remove_spec {b b' : ServerBuffer} {d : DocumentInfo} (h : b.remove d = some b') :
    d ∈ b.documents ∧ b'.documents = b.documents.erase d ∧ b'.document = b.document := by
  unfold ServerBuffer.remove at h
  split at h
  · next hd =>
    cases h
    exact ⟨hd, rfl, rfl⟩
  · cases h

theorem change_spec {b b' : ServerBuffer} {d : DocumentInfo} {text : Text}
    (h : b.change d text = some b') : d ∈ b.documents ∧ b'.documents = b.documents ∧
      b'.document = Function.update b.document d { b.document d with text := text } := by
  unfold ServerBuffer.change at h
  split at h
  · next hd =>
    cases h
    exact ⟨hd, rfl, rfl⟩
  · cases h

/-- A removal always changes what `serialise` would write. -/
theorem session_remove_ne {b b' : ServerBuffer} {d : DocumentInfo} (h : b.remove d = some b') :
    b'.session ≠ b.session := by
  obtain ⟨hd, hdocs, hdoc⟩ := remove_spec h
  intro he
  have hlen := congrArg List.length he
  have hpos := List.length_pos_of_mem hd
  simp only [ServerBuffer.session, List.length_map, hdocs, List.length_erase_of_mem hd] at hlen
  omega

end SessionBuffer
