import Mathlib.Data.Finset.Card
import Mathlib.Data.List.Induction
import Mathlib.Data.List.TakeWhile
import Tableinator.Relational.Transaction
import Tableinator.Store.Equivalence

/-! # A document repeated in one batch

A batch keeps the last message of each id before its hash gate runs; one message at a
time, every version passes the gate by itself.  Both are described on one document:
its payload and the rows that name it.  `DocumentState.accept` is what one message does
to it, so a batch is one `accept` of the last version and the messages one by one are
a fold over all of them. -/

namespace Tableinator

open Effect Relational Tableinator.Graph

/-- What the versions of a document are compared on. -/
structure Payload where
  hash : String
  data : Json
  media : Option Json

def Content.payload (row : Content) : Payload := ⟨row.hash, row.data, row.media⟩

/-- One document: its entity row, and the rows of each relation that name it. -/
structure DocumentState where
  payload : Option Payload
  rows : (r : EdgeRelation) → Finset (EdgeRow r)

def Store.document (st : Store) (t : DataType) (dataId : String) : DocumentState where
  payload := (st.content t dataId).map Content.payload
  rows r := (st.edges r).filter fun row => row.Names dataId

/-- The same entity rows, but for identity and time, and the same rows of every document. -/
structure Store.SameDocuments (a b : Store) : Prop where
  payload : ∀ t dataId, (a.content t dataId).map Content.payload = (b.content t dataId).map Content.payload
  edges : ∀ r, documentScope r ≠ none → a.edges r = b.edges r

section

variable (rt : Runtime) (t : DataType)

/-- The media column once a changed version was written. -/
def rewrittenMedia (record : BatchRecord) (prior : Option Payload) : Option Json :=
  if t = .releases then mediaColumn rt t record.data else prior.bind Payload.media

/-- The payload a message leaves where it met `prior`. -/
def acceptedPayload (record : BatchRecord) (prior : Option Payload) : Option Payload :=
  if sameHash (prior.map Payload.hash) record.sha256 then
    prior.map fun stored => { stored with
      media := if t = .releases then stored.media.or (mediaColumn rt t record.data) else stored.media }
  else record.sha256.str?.map fun hash => ⟨hash, .obj record.data, rewrittenMedia rt t record prior⟩

/-- The relations the message's document replaces. -/
def replacedBy (record : BatchRecord) : Finset EdgeRelation :=
  (deriveDocument rt t record.dataId record.data).replaced

def derivedRows (record : BatchRecord) (r : EdgeRelation) : Finset (EdgeRow r) :=
  ((deriveDocument rt t record.dataId record.data).edges r).toFinset

def DocumentState.accept (document : DocumentState) (record : BatchRecord) : DocumentState where
  payload := acceptedPayload rt t record document.payload
  rows r :=
    if sameHash (document.payload.map Payload.hash) record.sha256 = false ∧ r ∈ replacedBy rt t record then
      derivedRows rt t record r
    else document.rows r

end

/-- The versions of a document, from the first one that is not the stored payload on. -/
def unsettled (stored : Option String) (versions : List BatchRecord) : List BatchRecord :=
  versions.dropWhile fun version => sameHash stored version.sha256

/-- The hash a message leaves where this one was stored. -/
def hashAfter (stored : Option String) (sha256 : Json) : Option String :=
  if sameHash stored sha256 then stored else sha256.str?

section

variable (rt : Runtime) (t : DataType)

/-- The last of the versions that replaces the relation. -/
def lastReplacing (versions : List BatchRecord) (r : EdgeRelation) : Option BatchRecord :=
  versions.reverse.find? fun version => r ∈ replacedBy rt t version

/-- Leaving out every version but the last makes no difference to the document: no version
    passes the gate; or, where the last one carries the stored hash, the store already holds what
    it derives, and a relation the last one is silent about holds what the last of the others
    that replaces it derives. -/
def NothingLost (versions : List BatchRecord) (last : BatchRecord) (document : DocumentState) : Prop :=
  unsettled (document.payload.map Payload.hash) versions ≠ [] →
    (∀ stored, document.payload = some stored → last.sha256 = .str stored.hash →
      (t = .releases → stored.media.or (mediaColumn rt t last.data) = mediaColumn rt t last.data) ∧
        ∀ r ∈ replacedBy rt t last, document.rows r = derivedRows rt t last r) ∧
    ∀ r ∉ replacedBy rt t last, ∀ version,
      lastReplacing rt t (unsettled (document.payload.map Payload.hash) versions) r = some version →
        document.rows r = derivedRows rt t version r

/-- One hash, one payload, among the versions and the stored row. -/
structure Honest (versions : List BatchRecord) (document : DocumentState) : Prop where
  among : ∀ a ∈ versions, ∀ b ∈ versions, a.sha256 = b.sha256 → a.data = b.data
  stored : ∀ stored, document.payload = some stored → ∀ a ∈ versions, a.sha256 = .str stored.hash →
    stored.data = .obj a.data

/-- `met` is the document once the changed versions were written, `last` after all others: its
    payload is the last one, and each relation holds the rows of the last one that replaces it. -/
structure Carries (document : DocumentState) (changed : List BatchRecord) (last : BatchRecord)
    (met : DocumentState) : Prop where
  payload : ∃ hash, last.sha256 = .str hash ∧
    met.payload = some ⟨hash, .obj last.data, rewrittenMedia rt t last document.payload⟩
  rows : ∀ r, met.rows r =
    ((lastReplacing rt t changed r).map fun version => derivedRows rt t version r).getD (document.rows r)

/-- One message at a time, no version of the document is refused. -/
def AdmitsEach : Option String → List BatchRecord → Prop
  | _, [] => True
  | stored, version :: versions =>
    Admits rt t stored version ∧ AdmitsEach (hashAfter stored version.sha256) versions

end

variable {rt : Runtime} {t t' : DataType} {st st' : Store}

@[simp] theorem hashAfter_str (stored : Option String) (hash : String) :
    hashAfter stored (.str hash) = some hash := by
  rw [hashAfter]
  split
  · next hsame => exact sameHash_str.1 hsame
  · rfl

/-! ## The versions of one document -/

section

variable {document : DocumentState} {record last : BatchRecord} {versions : List BatchRecord}
variable {dataId : String}

theorem accept_same (hsame : sameHash (document.payload.map Payload.hash) record.sha256 = true) :
    (document.accept rt t record).rows = document.rows := by
  funext r
  exact if_neg fun hchanged => by simp [hsame] at hchanged

theorem payload_of_same {prior : Option Payload}
    (hsame : sameHash (prior.map Payload.hash) record.sha256 = true) :
    acceptedPayload rt t record prior = prior.map fun stored => { stored with
      media := if t = .releases then stored.media.or (mediaColumn rt t record.data) else stored.media } :=
  if_pos hsame

theorem payload_of_changed {prior : Option Payload} {hash : String} (hhash : record.sha256 = .str hash)
    (h : sameHash (prior.map Payload.hash) record.sha256 = false) :
    acceptedPayload rt t record prior = some ⟨hash, .obj record.data, rewrittenMedia rt t record prior⟩ := by
  rw [acceptedPayload, if_neg (by simp [h]), hhash]
  rfl

theorem rows_of_changed (hchanged : sameHash (document.payload.map Payload.hash) record.sha256 = false)
    (r : EdgeRelation) : (document.accept rt t record).rows r =
      if r ∈ replacedBy rt t record then derivedRows rt t record r else document.rows r := by
  simp only [DocumentState.accept, hchanged, true_and]

/-- Versions of one document with one hash are one version. -/
theorem Honest.eq_of_sha256 {a b : BatchRecord} (hhonest : Honest versions document)
    (hids : ∀ version ∈ versions, version.dataId = dataId) (ha : a ∈ versions) (hb : b ∈ versions)
    (hsha256 : a.sha256 = b.sha256) : a = b := by
  have hdata := hhonest.among a ha b hb hsha256
  have hid := (hids a ha).trans (hids b hb).symm
  cases a
  cases b
  simp_all

theorem Honest.earlier {version : BatchRecord} (hhonest : Honest (versions ++ [version]) document) :
    Honest versions document where
  among a ha b hb := hhonest.among a (List.mem_append_left _ ha) b (List.mem_append_left _ hb)
  stored stored hstored a ha := hhonest.stored stored hstored a (List.mem_append_left _ ha)

/-- Versions with the stored hash write no row, and no column but a `NULL` media. -/
theorem foldl_of_settled
    (h : ∀ version ∈ versions, sameHash (document.payload.map Payload.hash) version.sha256 = true) :
    (versions.foldl (DocumentState.accept rt t) document).rows = document.rows ∧
      (versions.foldl (DocumentState.accept rt t) document).payload.map Payload.hash =
        document.payload.map Payload.hash ∧
      ∀ last, rewrittenMedia rt t last (versions.foldl (DocumentState.accept rt t) document).payload =
        rewrittenMedia rt t last document.payload := by
  induction versions generalizing document with
  | nil => exact ⟨rfl, rfl, fun _ => rfl⟩
  | cons version versions ih =>
    have hsame := h version List.mem_cons_self
    have hnext : (document.accept rt t version).payload = document.payload.map fun stored => { stored with
        media := if t = .releases then stored.media.or (mediaColumn rt t version.data) else stored.media } :=
      payload_of_same hsame
    have hkept : (document.accept rt t version).payload.map Payload.hash =
        document.payload.map Payload.hash := by
      rw [hnext, Option.map_map]
      rfl
    have hmedia : ∀ last, rewrittenMedia rt t last (document.accept rt t version).payload =
        rewrittenMedia rt t last document.payload := by
      intro last
      rw [hnext]
      by_cases ht : t = .releases
      · simp [rewrittenMedia, ht]
      · cases document.payload <;> simp [rewrittenMedia, ht]
    obtain ⟨hrows, hhashes, hmedias⟩ := @ih (document.accept rt t version) fun other hother => by
      rw [hkept]
      exact h other (List.mem_cons_of_mem _ hother)
    exact ⟨hrows.trans (accept_same hsame), hhashes.trans hkept, fun last => (hmedias last).trans (hmedia last)⟩

theorem unsettled_append (stored : Option String) (versions : List BatchRecord) (version : BatchRecord) :
    unsettled stored (versions ++ [version]) =
      if unsettled stored versions = [] then if sameHash stored version.sha256 then [] else [version]
      else unsettled stored versions ++ [version] := by
  rw [unsettled, List.dropWhile_append]
  by_cases hnone : unsettled stored versions = []
  · rw [if_pos hnone, if_pos (by simpa [unsettled] using hnone)]
    by_cases hstored : sameHash stored version.sha256 = true <;> simp [hstored]
  · rw [if_neg hnone, if_neg (by simpa [unsettled] using hnone)]
    rfl

theorem settled_of_unsettled_nil {stored : Option String} (h : unsettled stored versions = []) :
    ∀ version ∈ versions, sameHash stored version.sha256 = true := by
  intro version hversion
  simpa using List.dropWhile_eq_nil_iff.1 h version hversion

theorem lastReplacing_append (versions : List BatchRecord) (version : BatchRecord) (r : EdgeRelation) :
    lastReplacing rt t (versions ++ [version]) r =
      if r ∈ replacedBy rt t version then some version else lastReplacing rt t versions r := by
  rw [lastReplacing, List.reverse_append, List.reverse_singleton, List.singleton_append, List.find?_cons]
  by_cases hreplaced : r ∈ replacedBy rt t version <;> simp [hreplaced, lastReplacing]

theorem lastReplacing_of_getLast {r : EdgeRelation} (hlast : versions.getLast? = some last)
    (hreplaced : r ∈ replacedBy rt t last) : lastReplacing rt t versions r = some last := by
  obtain ⟨earlier, rfl⟩ := List.getLast?_eq_some_iff.1 hlast
  rw [lastReplacing_append, if_pos hreplaced]

theorem getLast?_unsettled {stored : Option String} (h : unsettled stored versions ≠ []) :
    (unsettled stored versions).getLast? = versions.getLast? := by
  conv_rhs =>
    rw [← List.takeWhile_append_dropWhile (l := versions)
      (p := fun version => sameHash stored version.sha256)]
  exact (List.getLast?_append_of_ne_nil _ h).symm

/-- Once a hash is stored, every version that is not refused has one. -/
theorem text_of_admitted {hash : String} (h : AdmitsEach rt t (some hash) versions) :
    ∀ version ∈ versions, ∃ text, version.sha256 = .str text := by
  induction versions generalizing hash with
  | nil => exact fun _ hversion => absurd hversion List.not_mem_nil
  | cons version versions ih =>
    obtain ⟨hadmits, hrest⟩ := h
    cases hsame : sameHash (some hash) version.sha256 with
    | true =>
      rw [hashAfter, if_pos hsame] at hrest
      exact List.forall_mem_cons.2 ⟨⟨hash, sameHash_some.1 hsame⟩, ih hrest⟩
    | false =>
      obtain ⟨text, hrowHash⟩ := Option.isSome_iff_exists.1 (hadmits.taken hsame)
      have htext := (rowHash_eq_some.1 hrowHash).2
      rw [hashAfter, if_neg (by simp [hsame]), htext] at hrest
      exact List.forall_mem_cons.2 ⟨⟨text, htext⟩, ih hrest⟩

theorem text_of_unsettled {stored : Option String} (h : AdmitsEach rt t stored versions) :
    ∀ version ∈ unsettled stored versions, ∃ text, version.sha256 = .str text := by
  induction versions with
  | nil => exact fun _ hversion => absurd hversion List.not_mem_nil
  | cons version versions ih =>
    obtain ⟨hadmits, hrest⟩ := h
    cases hsame : sameHash stored version.sha256 with
    | true =>
      rw [hashAfter, if_pos hsame] at hrest
      have hdropped : unsettled stored (version :: versions) = unsettled stored versions :=
        List.dropWhile_cons_of_pos hsame
      rw [hdropped]
      exact ih hrest
    | false =>
      obtain ⟨text, hrowHash⟩ := Option.isSome_iff_exists.1 (hadmits.taken hsame)
      have htext := (rowHash_eq_some.1 hrowHash).2
      rw [hashAfter, if_neg (by simp [hsame]), htext] at hrest
      have hkept : unsettled stored (version :: versions) = version :: versions :=
        List.dropWhile_cons_of_neg (by simp [hsame])
      rw [hkept]
      exact List.forall_mem_cons.2 ⟨⟨text, htext⟩, text_of_admitted hrest⟩

/-! ### What one more version does to the invariant -/

/-- The first changed version, after versions with the stored hash. -/
theorem Carries.first {hash : String} {met : DocumentState} (htext : record.sha256 = .str hash)
    (hrows : met.rows = document.rows)
    (hmedia : rewrittenMedia rt t record met.payload = rewrittenMedia rt t record document.payload)
    (hchanged : sameHash (met.payload.map Payload.hash) record.sha256 = false) :
    Carries rt t document [record] record (met.accept rt t record) where
  payload := ⟨hash, htext, by rw [DocumentState.accept, payload_of_changed htext hchanged, hmedia]⟩
  rows r := by
    have hone := @lastReplacing_append rt t [] record r
    rw [List.nil_append] at hone
    rw [rows_of_changed hchanged, hone, hrows]
    by_cases hreplaced : r ∈ replacedBy rt t record
    · rw [if_pos hreplaced, if_pos hreplaced]
      rfl
    · rw [if_neg hreplaced, if_neg hreplaced]
      rfl

/-- The last version once more. -/
theorem Carries.again {changed : List BatchRecord} {met : DocumentState}
    (h : Carries rt t document changed last met) (hlast : changed.getLast? = some last) :
    Carries rt t document (changed ++ [last]) last (met.accept rt t last) := by
  obtain ⟨hash, htext, hpayload⟩ := h.payload
  have hsame : sameHash (met.payload.map Payload.hash) last.sha256 = true := by
    rw [hpayload, htext, sameHash_str]
    rfl
  refine ⟨⟨hash, htext, ?_⟩, fun r => ?_⟩
  · rw [DocumentState.accept, payload_of_same hsame, hpayload]
    by_cases ht : t = .releases <;> simp [rewrittenMedia, mediaColumn, ht]
  · rw [accept_same hsame, h.rows, lastReplacing_append]
    by_cases hreplaced : r ∈ replacedBy rt t last
    · rw [if_pos hreplaced, lastReplacing_of_getLast hlast hreplaced]
    · rw [if_neg hreplaced]

/-- A version with another hash than the last one. -/
theorem Carries.changed {changed : List BatchRecord} {met : DocumentState} {hash : String}
    (h : Carries rt t document changed last met) (htext : record.sha256 = .str hash)
    (hother : last.sha256 ≠ record.sha256) :
    Carries rt t document (changed ++ [record]) record (met.accept rt t record) := by
  obtain ⟨stored, hstored, hpayload⟩ := h.payload
  have hchanged : sameHash (met.payload.map Payload.hash) record.sha256 = false := by
    rw [← Bool.not_eq_true, htext, sameHash_str, hpayload]
    intro hsame
    have hhash : stored = hash := Option.some.inj hsame
    rw [hstored, htext, hhash] at hother
    exact hother rfl
  refine ⟨⟨hash, htext, ?_⟩, fun r => ?_⟩
  · rw [DocumentState.accept, payload_of_changed htext hchanged, hpayload]
    by_cases ht : t = .releases <;> simp [rewrittenMedia, ht]
  · rw [rows_of_changed hchanged, lastReplacing_append]
    by_cases hreplaced : r ∈ replacedBy rt t record
    · rw [if_pos hreplaced, if_pos hreplaced]
      rfl
    · rw [if_neg hreplaced, if_neg hreplaced, h.rows]

/-- Once a changed version was written, the document carries the versions from there on. -/
theorem foldl_of_unsettled (hids : ∀ version ∈ versions, version.dataId = dataId)
    (hhonest : Honest versions document)
    (htexts : ∀ version ∈ unsettled (document.payload.map Payload.hash) versions,
      ∃ hash, version.sha256 = .str hash)
    (hunsettled : unsettled (document.payload.map Payload.hash) versions ≠ []) :
    ∃ last ∈ versions.getLast?, Carries rt t document
      (unsettled (document.payload.map Payload.hash) versions) last
      (versions.foldl (DocumentState.accept rt t) document) := by
  induction versions using List.reverseRecOn with
  | nil => exact absurd rfl hunsettled
  | append_singleton versions version ih =>
    refine ⟨version, by simp, ?_⟩
    rw [List.foldl_append, List.foldl_cons, List.foldl_nil]
    rw [unsettled_append] at hunsettled htexts ⊢
    by_cases hnone : unsettled (document.payload.map Payload.hash) versions = []
    · -- every earlier version carries the stored hash, so this one must be the change
      rw [if_pos hnone] at hunsettled htexts ⊢
      have hchanged : ¬sameHash (document.payload.map Payload.hash) version.sha256 = true :=
        fun hsame => hunsettled (if_pos hsame)
      rw [if_neg hchanged] at htexts ⊢
      obtain ⟨hash, htext⟩ := htexts version (List.mem_singleton_self version)
      obtain ⟨hrows, hhash, hmedia⟩ := @foldl_of_settled rt t _ _ (settled_of_unsettled_nil hnone)
      refine Carries.first htext hrows (hmedia version) ?_
      rw [hhash]
      exact Bool.not_eq_true _ ▸ hchanged
    · rw [if_neg hnone] at htexts ⊢
      obtain ⟨hash, htext⟩ := htexts version (List.mem_append_right _ (List.mem_singleton_self version))
      obtain ⟨last, hlast, hcarries⟩ := ih
        (fun other hother => hids other (List.mem_append_left _ hother)) hhonest.earlier
        (fun other hother => htexts other (List.mem_append_left _ hother)) hnone
      by_cases hsame : last.sha256 = version.sha256
      · obtain rfl := hhonest.eq_of_sha256 hids (List.mem_append_left _ (List.mem_of_getLast? hlast))
          (List.mem_append_right _ (List.mem_singleton_self version)) hsame
        exact hcarries.again ((getLast?_unsettled hnone).trans hlast)
      · exact hcarries.changed htext hsame

/-- Versions with the stored hash are one version. -/
theorem foldl_settled_payload (hlast : versions.getLast? = some last) (hhonest : Honest versions document)
    (h : ∀ version ∈ versions, sameHash (document.payload.map Payload.hash) version.sha256 = true) :
    (versions.foldl (DocumentState.accept rt t) document).payload = (document.accept rt t last).payload := by
  induction versions using List.reverseRecOn generalizing last with
  | nil => cases hlast
  | append_singleton versions version ih =>
    obtain rfl : version = last := by simpa using hlast
    rw [List.foldl_append, List.foldl_cons, List.foldl_nil]
    cases hearlier : versions.getLast? with
    | none =>
      rw [List.getLast?_eq_none_iff.1 hearlier]
      rfl
    | some earlier =>
      have hmem := List.mem_append_left [version] (List.mem_of_getLast? hearlier)
      have hmem' : version ∈ versions ++ [version] := List.mem_append_right _ (List.mem_singleton_self version)
      have hkept := ih hearlier hhonest.earlier
        fun other hother => h other (List.mem_append_left _ hother)
      have hsame := h version hmem'
      have hsame' := h earlier hmem
      have hagain : sameHash ((document.accept rt t earlier).payload.map Payload.hash) version.sha256 =
          true := by
        rw [DocumentState.accept, payload_of_same hsame', Option.map_map]
        exact hsame
      rw [DocumentState.accept, hkept, payload_of_same hagain, DocumentState.accept, DocumentState.accept,
        payload_of_same hsame, payload_of_same hsame', Option.map_map]
      cases hstored : document.payload with
      | none => rfl
      | some stored =>
        rw [hstored] at hsame hsame'
        have hsha256 : earlier.sha256 = version.sha256 :=
          (sameHash_some.1 hsame').trans (sameHash_some.1 hsame).symm
        have hdata := hhonest.among earlier hmem version hmem' hsha256
        by_cases ht : t = .releases <;> simp [ht, hdata, Option.or_assoc, Option.or_self]

theorem DocumentState.eq_iff {a b : DocumentState} :
    a = b ↔ a.payload = b.payload ∧ ∀ r, a.rows r = b.rows r := by
  refine ⟨fun h => h ▸ ⟨rfl, fun _ => rfl⟩, fun h => ?_⟩
  cases a
  cases b
  obtain ⟨rfl, hrows⟩ := h
  congr
  exact funext hrows

theorem forall_iff_mem_notMem {s : Finset EdgeRelation} {p : EdgeRelation → Prop} :
    (∀ r, p r) ↔ (∀ r ∈ s, p r) ∧ ∀ r ∉ s, p r := by
  refine ⟨fun h => ⟨fun r _ => h r, fun r _ => h r⟩, fun h r => ?_⟩
  by_cases hr : r ∈ s
  · exact h.1 r hr
  · exact h.2 r hr

theorem Carries.rows_replaced {changed : List BatchRecord} {met : DocumentState} {r : EdgeRelation}
    (h : Carries rt t document changed last met) (hlast : changed.getLast? = some last)
    (hreplaced : r ∈ replacedBy rt t last) : met.rows r = derivedRows rt t last r := by
  rw [h.rows, lastReplacing_of_getLast hlast hreplaced]
  rfl

/-- A relation is as it was, exactly if the last version that replaces it derives what was there. -/
theorem Carries.rows_kept_iff {changed : List BatchRecord} {met : DocumentState} {r : EdgeRelation}
    (h : Carries rt t document changed last met) :
    document.rows r = met.rows r ↔ ∀ version, lastReplacing rt t changed r = some version →
      document.rows r = derivedRows rt t version r := by
  rw [h.rows]
  cases lastReplacing rt t changed r with
  | none => simp
  | some version => simp

/-- Where the last version carries the stored hash, its `accept` only fills a `NULL` media. -/
theorem Carries.accept_iff_of_same {changed : List BatchRecord} {met : DocumentState} {stored : Payload}
    (h : Carries rt t document changed last met) (hlast : changed.getLast? = some last)
    (hstored : document.payload = some stored) (hhash : last.sha256 = .str stored.hash)
    (hdata : stored.data = .obj last.data) :
    document.accept rt t last = met ↔
      ((t = .releases → stored.media.or (mediaColumn rt t last.data) = mediaColumn rt t last.data) ∧
        ∀ r ∈ replacedBy rt t last, document.rows r = derivedRows rt t last r) ∧
      ∀ r ∉ replacedBy rt t last, ∀ version, lastReplacing rt t changed r = some version →
        document.rows r = derivedRows rt t version r := by
  have hsame : sameHash (document.payload.map Payload.hash) last.sha256 = true := by
    rw [hstored, hhash, sameHash_str]
    rfl
  obtain ⟨hash, htext, hpayload⟩ := h.payload
  obtain rfl : hash = stored.hash := by simpa [htext] using hhash
  have hmedia : (document.accept rt t last).payload = met.payload ↔
      (t = .releases → stored.media.or (mediaColumn rt t last.data) = mediaColumn rt t last.data) := by
    rw [hpayload, DocumentState.accept, payload_of_same hsame, hstored]
    by_cases ht : t = .releases <;> simp [rewrittenMedia, ht, hdata]
  rw [DocumentState.eq_iff, accept_same hsame, hmedia,
    forall_iff_mem_notMem (s := replacedBy rt t last), ← and_assoc]
  refine and_congr (and_congr Iff.rfl (forall₂_congr fun r hr => ?_)) (forall₂_congr fun r _ => ?_)
  · rw [h.rows_replaced hlast hr]
  · exact h.rows_kept_iff

/-- Where it carries another hash, its `accept` writes it whole. -/
theorem Carries.accept_iff_of_changed {changed : List BatchRecord} {met : DocumentState}
    (h : Carries rt t document changed last met) (hlast : changed.getLast? = some last)
    (hchanged : sameHash (document.payload.map Payload.hash) last.sha256 = false) :
    document.accept rt t last = met ↔
      ∀ r ∉ replacedBy rt t last, ∀ version, lastReplacing rt t changed r = some version →
        document.rows r = derivedRows rt t version r := by
  obtain ⟨hash, htext, hpayload⟩ := h.payload
  have hpayloads : (document.accept rt t last).payload = met.payload := by
    rw [hpayload, DocumentState.accept, payload_of_changed htext hchanged]
  have hwritten : ∀ r ∈ replacedBy rt t last, (document.accept rt t last).rows r = met.rows r := by
    intro r hr
    rw [rows_of_changed hchanged, if_pos hr, h.rows_replaced hlast hr]
  rw [DocumentState.eq_iff, forall_iff_mem_notMem (s := replacedBy rt t last), and_iff_right hpayloads,
    and_iff_right hwritten]
  refine forall₂_congr fun r hr => ?_
  rw [rows_of_changed hchanged, if_neg hr]
  exact h.rows_kept_iff

/-- One `accept` of the last version does what all of them did, exactly if nothing is lost. -/
theorem foldl_eq_accept_iff (hlast : versions.getLast? = some last)
    (hids : ∀ version ∈ versions, version.dataId = dataId) (hhonest : Honest versions document)
    (hadmits : AdmitsEach rt t (document.payload.map Payload.hash) versions) :
    document.accept rt t last = versions.foldl (DocumentState.accept rt t) document ↔
      NothingLost rt t versions last document := by
  have hmem := List.mem_of_getLast? hlast
  by_cases hsettled : unsettled (document.payload.map Payload.hash) versions = []
  · have hall := settled_of_unsettled_nil hsettled
    refine iff_of_true (DocumentState.eq_iff.2 ⟨(foldl_settled_payload hlast hhonest hall).symm,
      fun r => ?_⟩) fun hne => absurd hsettled hne
    rw [accept_same (hall last hmem), (foldl_of_settled hall).1]
  · obtain ⟨other, hother, hcarries⟩ :=
      @foldl_of_unsettled rt t _ _ _ hids hhonest (text_of_unsettled hadmits) hsettled
    obtain rfl : last = other := Option.some.inj (hlast.symm.trans hother)
    have hlast' := (getLast?_unsettled hsettled).trans hlast
    rw [NothingLost, imp_iff_right hsettled]
    cases hsame : sameHash (document.payload.map Payload.hash) last.sha256 with
    | true =>
      obtain ⟨hash, htext, -⟩ := hcarries.payload
      have hmatch := hsame
      rw [htext, sameHash_str] at hmatch
      obtain ⟨stored, hstored, rfl⟩ := Option.map_eq_some_iff.1 hmatch
      rw [hcarries.accept_iff_of_same hlast' hstored htext (hhonest.stored stored hstored last hmem htext)]
      refine and_congr_left fun _ => ⟨fun h found hfound _ => ?_, fun h => h stored hstored htext⟩
      obtain rfl := Option.some.inj (hstored.symm.trans hfound)
      exact h
    | false =>
      rw [hcarries.accept_iff_of_changed hlast' hsame, iff_and_self]
      intro _ stored hstored hhash
      rw [hstored, hhash] at hsame
      exact absurd (sameHash_str.2 rfl) (Bool.eq_false_iff.1 hsame)

end

/-! ## The documents of a store -/

section

variable {records : List BatchRecord} {record : BatchRecord} {dataId : String} {r : EdgeRelation}

theorem accepted_payload (record : BatchRecord) (prior : Option Content) :
    (accepted rt t record prior).map Content.payload =
      acceptedPayload rt t record (prior.map Content.payload) := by
  have hhash : (prior.map Content.payload).map Payload.hash = prior.map Content.hash := by
    rw [Option.map_map]
    rfl
  rw [accepted, acceptedPayload, hhash]
  split
  · rw [Option.map_map, Option.map_map]
    rfl
  · rw [Option.map_map]
    cases prior <;> rfl

theorem hash_accepted (record : BatchRecord) (prior : Option Content) :
    (accepted rt t record prior).map Content.hash = hashAfter (prior.map Content.hash) record.sha256 := by
  rw [accepted, hashAfter]
  split
  · rw [Option.map_map]
    rfl
  · rw [Option.map_map]
    cases record.sha256.str? <;> rfl

theorem Leaves.hash (h : Leaves rt t st records st') (hrecord : record ∈ records) :
    st'.hash t record.dataId = hashAfter (st.hash t record.dataId) record.sha256 := by
  rw [← hash_content, h.written record hrecord, hash_accepted, hash_content]

theorem superseded_newDocuments {row : EdgeRow r} : Superseded rt t (newDocuments t st records) row ↔
    ∃ record ∈ records, ¬HashUnchanged t record.dataId record.sha256 st ∧ r ∈ replacedBy rt t record ∧
      row.Names record.dataId := by
  simp only [Superseded, newDocuments, List.mem_map, List.mem_filter]
  constructor
  · rintro ⟨_, ⟨record, ⟨hmem, hchanged⟩, rfl⟩, hreplaced, hnames⟩
    exact ⟨record, hmem, by simpa using hchanged, hreplaced, hnames⟩
  · rintro ⟨record, hmem, hchanged, hreplaced, hnames⟩
    exact ⟨_, ⟨record, ⟨hmem, by simpa using hchanged⟩, rfl⟩, hreplaced, hnames⟩

theorem newDocuments_nodup (hids : (records.map (·.dataId)).Nodup) :
    ((newDocuments t st records).map Prod.fst).Nodup := by
  rw [newDocuments, List.map_map]
  exact hids.sublist (List.filter_sublist.map _)

theorem Leaves.edges_spared (h : Leaves rt t st records st') (hids : (records.map (·.dataId)).Nodup)
    (hscope : documentScope r ≠ none) {row : EdgeRow r}
    (hspared : ∀ record ∈ records, ¬HashUnchanged t record.dataId record.sha256 st →
      r ∈ replacedBy rt t record → ¬row.Names record.dataId) : row ∈ st'.edges r ↔ row ∈ st.edges r := by
  rw [h.edges]
  refine mem_withEdges_of_spared hscope (newDocuments_nodup hids) fun hsuperseded => ?_
  obtain ⟨record, hrecord, hchanged, hreplaced, hnames⟩ := superseded_newDocuments.1 hsuperseded
  exact hspared record hrecord hchanged hreplaced hnames

theorem rows_of_additive (hscope : documentScope r = none) : (st.document t dataId).rows r = ∅ := by
  refine Finset.filter_eq_empty_iff.2 fun row _ hnames => ?_
  simp [EdgeRow.Names, hscope] at hnames

theorem hash_document (st : Store) (t : DataType) (dataId : String) :
    (st.document t dataId).payload.map Payload.hash = st.hash t dataId := by
  rw [← hash_content, Store.document, Option.map_map]
  rfl

theorem hashUnchanged_iff_document {sha256 : Json} : HashUnchanged t dataId sha256 st ↔
    sameHash ((st.document t dataId).payload.map Payload.hash) sha256 = true := by
  rw [HashUnchanged, hash_document]

/-- A written document is accepted once. -/
theorem Leaves.document (h : Leaves rt t st records st') (hids : (records.map (·.dataId)).Nodup)
    (hrecord : record ∈ records) :
    st'.document t record.dataId = (st.document t record.dataId).accept rt t record := by
  have hsame : ∀ {other}, other ∈ records → other.dataId = record.dataId → other = record :=
    fun hother hid => List.inj_on_of_nodup_map hids hother hrecord hid
  have hrows : ∀ r, (st'.document t record.dataId).rows r =
      ((st.document t record.dataId).accept rt t record).rows r := by
    intro r
    by_cases hscope : documentScope r = none
    · have hsilent : ¬(sameHash ((st.document t record.dataId).payload.map Payload.hash) record.sha256 =
          false ∧ r ∈ replacedBy rt t record) :=
        fun hwritten => scoped_of_mem_purgeScope (mem_purgeScope_of_replaced hwritten.2) hscope
      rw [rows_of_additive hscope]
      exact (rows_of_additive hscope).symm.trans (if_neg hsilent).symm
    · have hgate : ¬HashUnchanged t record.dataId record.sha256 st ↔
          sameHash ((st.document t record.dataId).payload.map Payload.hash) record.sha256 = false := by
        rw [hashUnchanged_iff_document, Bool.not_eq_true]
      by_cases hwritten : ¬HashUnchanged t record.dataId record.sha256 st ∧ r ∈ replacedBy rt t record
      · refine Eq.trans ?_ (if_pos ⟨hgate.1 hwritten.1, hwritten.2⟩).symm
        have hnew : (record.dataId, record.data) ∈ newDocuments t st records :=
          List.mem_map.2 ⟨record, List.mem_filter.2 ⟨hrecord, by simpa using hwritten.1⟩, rfl⟩
        ext row
        rw [Store.document, Finset.mem_filter, h.edges, derivedRows, List.mem_toFinset]
        exact mem_withEdges_of_replaced (newDocuments_nodup hids) hnew hwritten.2
      · refine Eq.trans ?_ (if_neg fun hnew => hwritten ⟨hgate.2 hnew.1, hnew.2⟩).symm
        ext row
        simp only [Store.document, Finset.mem_filter]
        refine and_congr_left fun hnames => h.edges_spared hids hscope
          fun other hother hchanged hreplaced hother' => ?_
        obtain rfl := hsame hother (EdgeRow.names_injective hother' hnames)
        exact hwritten ⟨hchanged, hreplaced⟩
  have hpayload : (st'.document t record.dataId).payload =
      ((st.document t record.dataId).accept rt t record).payload := by
    simp only [Store.document, DocumentState.accept, h.written record hrecord, accepted_payload]
  exact congrArg₂ DocumentState.mk hpayload (funext hrows)

/-- A document of another id is left. -/
theorem Leaves.document_of_notMem (h : Leaves rt t st records st') (hids : (records.map (·.dataId)).Nodup)
    (hfresh : dataId ∉ records.map (·.dataId)) : st'.document t dataId = st.document t dataId := by
  have hrows : ∀ r, (st'.document t dataId).rows r = (st.document t dataId).rows r := by
    intro r
    by_cases hscope : documentScope r = none
    · rw [rows_of_additive hscope, rows_of_additive hscope]
    · ext row
      simp only [Store.document, Finset.mem_filter]
      refine and_congr_left fun hnames => h.edges_spared hids hscope fun other hother _ _ hother' => ?_
      exact hfresh (EdgeRow.names_injective hother' hnames ▸ List.mem_map_of_mem (f := (·.dataId)) hother)
  exact congrArg₂ DocumentState.mk (by simp only [h.unwritten dataId hfresh]) (funext hrows)

/-! ## Runs that commit -/

theorem aliasRefs_of_targets {payloads : List (Document × NativeId)} {targets : List (AliasRef × NativeId)}
    (h : aliasTargets rt .releases payloads = some targets) :
    ∀ payload ∈ payloads, (aliasRefs rt payload.1).isSome = true := by
  have hloop : ∀ (payloads : List (Document × NativeId)) (found : List (AliasRef × NativeId)),
      (payloads.foldlM (fun (targets : List (AliasRef × NativeId)) (payload : Document × NativeId) => do
        let refs ← aliasRefs rt payload.1
        return refs.foldl (fun targets ref => if (targets.lookup ref).isSome then targets
          else targets ++ [(ref, payload.2)]) targets) found).isSome = true →
      ∀ payload ∈ payloads, (aliasRefs rt payload.1).isSome = true := by
    intro payloads
    induction payloads with
    | nil => exact fun _ _ _ hpayload => absurd hpayload List.not_mem_nil
    | cons payload payloads ih =>
      intro found hsome other hother
      rw [List.foldlM_cons] at hsome
      cases hrefs : aliasRefs rt payload.1 with
      | none => simp [hrefs] at hsome
      | some refs =>
        simp only [hrefs, Option.bind_eq_bind, Option.bind_some] at hsome
        rcases List.mem_cons.1 hother with rfl | hother
        · simp [hrefs]
        · exact ih _ hsome other hother
  refine hloop payloads [] ?_
  rw [aliasTargets, if_pos rfl] at h
  rw [h]
  rfl

/-- A batch that commits has admitted its messages. -/
theorem admits_of_processBatch {now : Time} {messages : List BatchRecord} {result : BatchWriteResult}
    (h : (processBatch rt now t messages).serial engine.alone st = .ok (result, st')) :
    ∀ record ∈ latest messages, Admits rt t (st.hash t record.dataId) record := by
  obtain ⟨existing, selected, hselect, h⟩ := Program.serial_bind_eq_ok h
  obtain ⟨rfl, rfl⟩ : (Statement.selectExisting t ((latest messages).map (·.dataId))).read st = existing ∧
      st = selected := Prod.mk.inj (Except.ok.inj hselect)
  dsimp only at h
  split at h
  · cases h
  · next hmissing =>
    split at h
    · cases h
    · next targets htargets =>
      obtain ⟨_, refreshed, _, h⟩ := Program.serial_bind_eq_ok h
      obtain ⟨_, written, hwrite, _⟩ := Program.serial_bind_eq_ok h
      intro record hrecord
      obtain ⟨nativeId, hmem⟩ := mem_resolved (not_not.1 hmissing) hrecord
      refine ⟨⟨by simp [(mem_of_mem_resolved hmem).2], fun ht => ?_⟩, fun hchanged => ?_⟩
      · subst ht
        exact aliasRefs_of_targets htargets (record.data, nativeId) (List.mem_map.2 ⟨_, hmem, rfl⟩)
      · have hgate := @unchanged_iff t st (latest messages) record hrecord
        have hlet : unchanged ((Statement.selectExisting t ((latest messages).map (·.dataId))).read st)
            record = false := by
          rw [← Bool.not_eq_true, hgate, HashUnchanged, hchanged]
          exact Bool.false_ne_true
        exact Option.isSome_iff_exists.2
          (rowHash_of_changed (serial_writeChanged_eq_ok hwrite).1 hmem hlet)

theorem leaves_of_run {cap : Rat} {now : Time} {messages : List BatchRecord}
    (h : (Operation.processBatch now t messages).run rt cap st = .ok st') :
    (∀ record ∈ latest messages, Admits rt t (st.hash t record.dataId) record) ∧
      Leaves rt t st (latest messages) st' := by
  obtain ⟨result, hserial⟩ := serial_of_map h
  have hadmits := admits_of_processBatch hserial
  obtain ⟨_, left, hleft, hleaves⟩ := @processBatch_leaves rt t st messages now hadmits
  obtain ⟨_, rfl⟩ := Prod.mk.inj (Except.ok.inj (hserial.symm.trans hleft))
  exact ⟨hadmits, hleaves⟩

end

/-- `process_batch` of each message alone, in the order of the list. -/
def eachBatch (rt : Runtime) (cap : Rat) (t : DataType) (messages : List (Time × BatchRecord)) (st : Store) :
    Except WriteError Store :=
  messages.foldlM (fun st message => (Operation.processBatch message.1 t [message.2]).run rt cap st) st

def versionsOf (dataId : String) (records : List BatchRecord) : List BatchRecord :=
  records.filter fun record => record.dataId = dataId

/-- No message is refused, neither of the batch nor one at a time. -/
structure NoneRefused (rt : Runtime) (t : DataType) (st : Store) (records : List BatchRecord) : Prop where
  batch : ∀ last ∈ latest records, Admits rt t (st.hash t last.dataId) last
  each : ∀ dataId, AdmitsEach rt t (st.hash t dataId) (versionsOf dataId records)

/-- Every document is what `run` makes of the one it was, and all other rows are as they were. -/
structure Tracks (t : DataType) (records : List BatchRecord) (run : String → DocumentState → DocumentState)
    (st st' : Store) : Prop where
  document : ∀ dataId, st'.document t dataId = run dataId (st.document t dataId)
  others : ∀ t' dataId, t' ≠ t → st'.content t' dataId = st.content t' dataId
  spared : ∀ r, documentScope r ≠ none → ∀ row : EdgeRow r, (∀ record ∈ records, ¬row.Names record.dataId) →
    (row ∈ st'.edges r ↔ row ∈ st.edges r)

section

variable {cap : Rat} {now : Time} {records : List BatchRecord} {record : BatchRecord} {dataId : String}
variable {messages : List (Time × BatchRecord)}

theorem find_putRecord (record : BatchRecord) (records : List BatchRecord) (dataId : String) :
    (putRecord record records).find? (·.dataId = dataId) =
      if record.dataId = dataId then some record else records.find? (·.dataId = dataId) := by
  induction records with
  | nil => by_cases hid : record.dataId = dataId <;> simp [putRecord, hid]
  | cons head records ih =>
    by_cases hhead : head.dataId = record.dataId
    · rw [putRecord, if_pos hhead]
      by_cases hid : record.dataId = dataId
      · simp [hid]
      · simp [hid, hhead]
    · rw [putRecord, if_neg hhead, List.find?_cons, List.find?_cons, ih]
      by_cases hid : record.dataId = dataId
      · have hne : head.dataId ≠ dataId := fun heq => hhead (heq.trans hid.symm)
        simp [hid, hne]
      · simp [hid]

/-- The batch keeps the last version of each document. -/
theorem find_latest (records : List BatchRecord) (dataId : String) :
    (latest records).find? (·.dataId = dataId) = (versionsOf dataId records).getLast? := by
  induction records using List.reverseRecOn with
  | nil => rfl
  | append_singleton records record ih =>
    have hput : latest (records ++ [record]) = putRecord record (latest records) := by
      simp [latest, List.foldl_append]
    rw [hput, find_putRecord, ih]
    by_cases hid : record.dataId = dataId
    · simp [hid, versionsOf]
    · simp [hid, versionsOf]

theorem mem_of_mem_latest (h : record ∈ latest records) : record ∈ records := by
  have hfound : (latest records).find? (·.dataId = record.dataId) = some record := by
    cases hfind : (latest records).find? (·.dataId = record.dataId) with
    | none => exact absurd (List.find?_eq_none.1 hfind record h) (by simp)
    | some other =>
      rw [latest_injective (List.mem_of_find?_eq_some hfind) h (by simpa using List.find?_some hfind)]
  rw [find_latest] at hfound
  exact List.mem_of_mem_filter (List.mem_of_getLast? hfound)

theorem tracks_batch (h : Leaves rt t st (latest records) st') :
    Tracks t records (fun dataId document => match (versionsOf dataId records).getLast? with
      | some last => document.accept rt t last
      | none => document) st st' where
  document dataId := by
    cases hlast : (versionsOf dataId records).getLast? with
    | none =>
      have hnone := (find_latest records dataId).trans hlast
      refine h.document_of_notMem (latest_nodup records) fun hmem => ?_
      obtain ⟨record, hrecord, hid⟩ := List.mem_map.1 hmem
      exact List.find?_eq_none.1 hnone record hrecord (by simpa using hid)
    | some last =>
      have hfound := (find_latest records dataId).trans hlast
      obtain rfl : last.dataId = dataId := by simpa using List.find?_some hfound
      exact h.document (latest_nodup records) (List.mem_of_find?_eq_some hfound)
  others := h.others
  spared r hscope row hspared := by
    exact h.edges_spared (latest_nodup records) hscope fun record hrecord _ _ =>
      hspared record (mem_of_mem_latest hrecord)

theorem versionsOf_cons (dataId : String) (record : BatchRecord) (records : List BatchRecord) :
    versionsOf dataId (record :: records) =
      if record.dataId = dataId then record :: versionsOf dataId records else versionsOf dataId records := by
  by_cases hid : record.dataId = dataId <;> simp [versionsOf, hid]

/-- The hashes a message alone leaves. -/
theorem Leaves.hash_single (h : Leaves rt t st [record] st') (dataId : String) : st'.hash t dataId =
    if record.dataId = dataId then hashAfter (st.hash t dataId) record.sha256 else st.hash t dataId := by
  by_cases hid : record.dataId = dataId
  · rw [if_pos hid, ← hid]
    exact h.hash (List.mem_singleton_self record)
  · rw [if_neg hid, ← hash_content, ← hash_content, h.unwritten dataId (by simpa using Ne.symm hid)]

/-- One message at a time, every version of a document is accepted in turn. -/
theorem tracks_each (h : eachBatch rt cap t messages st = .ok st') :
    (∀ dataId, AdmitsEach rt t (st.hash t dataId) (versionsOf dataId (messages.map Prod.snd))) ∧
      Tracks t (messages.map Prod.snd) (fun dataId document =>
        (versionsOf dataId (messages.map Prod.snd)).foldl (DocumentState.accept rt t) document) st st' := by
  induction messages generalizing st with
  | nil =>
    obtain rfl : st = st' := Except.ok.inj h
    exact ⟨fun _ => trivial, fun _ => rfl, fun _ _ _ => rfl, fun _ _ _ _ => Iff.rfl⟩
  | cons message messages ih =>
    obtain ⟨mid, hfirst, hrest⟩ := bind_eq_ok.1 h
    obtain ⟨hadmits, hleaves⟩ := leaves_of_run hfirst
    obtain ⟨hothers, htracks⟩ := ih hrest
    have hstep := tracks_batch hleaves
    refine ⟨fun dataId => ?_, fun dataId => ?_, ?_, ?_⟩
    · have hmid := hothers dataId
      rw [hleaves.hash_single] at hmid
      rw [List.map_cons, versionsOf_cons]
      split
      · next hid =>
        rw [if_pos hid] at hmid
        exact ⟨hid ▸ hadmits message.2 (List.mem_singleton_self message.2), hmid⟩
      · next hid => rwa [if_neg hid] at hmid
    · rw [htracks.document, hstep.document]
      by_cases hid : message.2.dataId = dataId
      · simp [versionsOf, hid]
      · simp [versionsOf, hid]
    · exact fun t' dataId ht => (htracks.others t' dataId ht).trans (hstep.others t' dataId ht)
    · intro r hscope row hspared
      rw [List.map_cons, List.forall_mem_cons] at hspared
      refine (htracks.spared r hscope row hspared.2).trans (hstep.spared r hscope row fun record hrecord => ?_)
      obtain rfl := List.mem_singleton.1 hrecord
      exact hspared.1

theorem eachBatch_commits
    (hadmits : ∀ dataId, AdmitsEach rt t (st.hash t dataId) (versionsOf dataId (messages.map Prod.snd))) :
    ∃ st', eachBatch rt cap t messages st = .ok st' := by
  induction messages generalizing st with
  | nil => exact ⟨st, rfl⟩
  | cons message messages ih =>
    have hfirst := hadmits message.2.dataId
    rw [List.map_cons, versionsOf_cons, if_pos rfl] at hfirst
    have hone : ∀ record ∈ latest [message.2], Admits rt t (st.hash t record.dataId) record :=
      fun record hrecord => List.mem_singleton.1 hrecord ▸ hfirst.1
    obtain ⟨result, mid, hserial, hleaves⟩ := @processBatch_leaves rt t st _ message.1 hone
    obtain ⟨st', hst'⟩ := @ih mid fun dataId => by
      have hnext := hadmits dataId
      rw [List.map_cons, versionsOf_cons] at hnext
      rw [hleaves.hash_single]
      split at hnext
      · next hid =>
        rw [if_pos hid]
        exact hnext.2
      · next hid =>
        rw [if_neg hid]
        exact hnext
    exact ⟨st', bind_eq_ok.2 ⟨mid, settle_of_serial hserial, hst'⟩⟩

theorem Tracks.sameDocuments_iff {a b : Store} {run run' : String → DocumentState → DocumentState}
    (ha : Tracks t records run st a) (hb : Tracks t records run' st b) :
    a.SameDocuments b ↔ ∀ dataId, run dataId (st.document t dataId) = run' dataId (st.document t dataId) := by
  constructor
  · intro hsame dataId
    rw [← ha.document, ← hb.document]
    refine congrArg₂ DocumentState.mk (hsame.payload t dataId) (funext fun r => ?_)
    by_cases hscope : documentScope r = none
    · exact (@rows_of_additive t a dataId r hscope).trans (@rows_of_additive t b dataId r hscope).symm
    · exact congrArg (Finset.filter fun row => row.Names dataId) (hsame.edges r hscope)
  · intro hruns
    have hdocuments : ∀ dataId, a.document t dataId = b.document t dataId := by
      intro dataId
      rw [ha.document, hb.document, hruns]
    refine ⟨fun t' dataId => ?_, fun r hscope => ?_⟩
    · by_cases ht : t' = t
      · subst ht
        exact congrArg DocumentState.payload (hdocuments dataId)
      · rw [ha.others t' dataId ht, hb.others t' dataId ht]
    · ext row
      by_cases hnamed : ∃ dataId, row.Names dataId
      · obtain ⟨dataId, hnames⟩ := hnamed
        have hrows := congrFun (congrArg DocumentState.rows (hdocuments dataId)) r
        have hmem := Finset.ext_iff.1 hrows row
        simpa [Store.document, hnames] using hmem
      · have hspared : ∀ record ∈ records, ¬row.Names record.dataId :=
          fun record _ hnames => hnamed ⟨record.dataId, hnames⟩
        rw [ha.spared r hscope row hspared, hb.spared r hscope row hspared]

end

/-- Where one hash means one payload: the batch and its messages one by one, when all commit, leave
    the same entity rows and the same rows of every document, exactly if for no document a version
    the batch leaves out had an effect that outlives it. -/
theorem repeated_documents_iff (rt : Runtime) (cap : Rat) (t : DataType) (now : Time)
    (messages : List (Time × BatchRecord)) (st : Store)
    (hhonest : ∀ dataId, Honest (versionsOf dataId (messages.map Prod.snd)) (st.document t dataId)) :
    (∀ batched each, (Operation.processBatch now t (messages.map Prod.snd)).run rt cap st = .ok batched →
      eachBatch rt cap t messages st = .ok each → batched.SameDocuments each) ↔
    (NoneRefused rt t st (messages.map Prod.snd) → ∀ last ∈ latest (messages.map Prod.snd),
      NothingLost rt t (versionsOf last.dataId (messages.map Prod.snd)) last
        (st.document t last.dataId)) := by
  have hlost : ∀ dataId, AdmitsEach rt t (st.hash t dataId) (versionsOf dataId (messages.map Prod.snd)) →
      ((match (versionsOf dataId (messages.map Prod.snd)).getLast? with
        | some last => (st.document t dataId).accept rt t last
        | none => st.document t dataId) =
          (versionsOf dataId (messages.map Prod.snd)).foldl (DocumentState.accept rt t)
            (st.document t dataId) ↔
      ∀ last ∈ latest (messages.map Prod.snd), last.dataId = dataId →
        NothingLost rt t (versionsOf dataId (messages.map Prod.snd)) last (st.document t dataId)) := by
    intro dataId hadmits
    have hfind := find_latest (messages.map Prod.snd) dataId
    have hids : ∀ version ∈ versionsOf dataId (messages.map Prod.snd), version.dataId = dataId :=
      fun version hversion => by simpa using (List.mem_filter.1 hversion).2
    cases hlast : (versionsOf dataId (messages.map Prod.snd)).getLast? with
    | none =>
      rw [hlast] at hfind
      rw [List.getLast?_eq_none_iff.1 hlast]
      refine iff_of_true rfl fun last hmem hid => ?_
      exact absurd (by simpa using hid) (List.find?_eq_none.1 hfind last hmem)
    | some last =>
      rw [hlast] at hfind
      have hid : last.dataId = dataId := by simpa using List.find?_some hfind
      rw [← hash_document] at hadmits
      refine (foldl_eq_accept_iff hlast hids (hhonest dataId) hadmits).trans
        ⟨fun h other hother hother' => ?_, fun h => ?_⟩
      · rwa [latest_injective hother (List.mem_of_find?_eq_some hfind) (hother'.trans hid.symm)]
      · exact h last (List.mem_of_find?_eq_some hfind) hid
  constructor
  · intro h hadmits last hlast
    obtain ⟨result, batched, hserial, hbatched⟩ := @processBatch_leaves rt t st _ now hadmits.batch
    obtain ⟨each, heach⟩ := @eachBatch_commits rt t st cap messages hadmits.each
    have hsame := h batched each (settle_of_serial hserial) heach
    rw [(tracks_batch hbatched).sameDocuments_iff (tracks_each heach).2] at hsame
    exact (hlost last.dataId (hadmits.each last.dataId)).1 (hsame last.dataId) last hlast rfl
  · intro h batched each hbatched heach
    obtain ⟨heachAdmits, htracks⟩ := tracks_each heach
    obtain ⟨hbatchAdmits, hleaves⟩ := leaves_of_run hbatched
    rw [(tracks_batch hleaves).sameDocuments_iff htracks]
    exact fun dataId => (hlost dataId (heachAdmits dataId)).2 fun last hlast hid =>
      hid ▸ h ⟨hbatchAdmits, heachAdmits⟩ last hlast

/-! ## Two versions of a release -/

/-- A release with its companies, as a post-cutover event carries them. -/
def creditedVersion : BatchRecord :=
  ⟨"7", [("sha256", .str "a"), ("companies", .obj [("items", .arr
    [.obj [("name", .str "Acme Pressing"), ("role", .str "Pressed By")]])])], .str "a"⟩

/-- The same release, silent about companies. -/
def silentVersion : BatchRecord :=
  ⟨"7", [("sha256", .str "b"), ("genres", .arr [.str "House"])], .str "b"⟩

def correctedVersion : BatchRecord :=
  ⟨"7", [("sha256", .str "c"), ("genres", .arr [.str "Dub"])], .str "c"⟩

theorem honest_of_distinct {a b : BatchRecord} {document : DocumentState} (hne : a.sha256 ≠ b.sha256)
    (hfresh : document.payload = none) (dataId : String) : Honest (versionsOf dataId [a, b]) document where
  among x hx y hy hsame := by
    have hmem : ∀ z ∈ versionsOf dataId [a, b], z = a ∨ z = b := fun z hz => by
      simpa using List.mem_of_mem_filter hz
    rcases hmem x hx with rfl | rfl <;> rcases hmem y hy with rfl | rfl
    · rfl
    · exact absurd hsame hne
    · exact absurd hsame.symm hne
    · rfl
  stored stored hstored := by
    rw [hfresh] at hstored
    cases hstored

theorem repeated_documents_corrected : ∃ batched each,
    (Operation.processBatch 2 .releases [silentVersion, correctedVersion]).run concreteRuntime 1
      Store.empty = .ok batched ∧
    eachBatch concreteRuntime 1 .releases [(2, silentVersion), (3, correctedVersion)] Store.empty = .ok each ∧
    batched.SameDocuments each := by
  have hnothing : ∀ last ∈ latest [silentVersion, correctedVersion], NothingLost concreteRuntime .releases
      (versionsOf last.dataId [silentVersion, correctedVersion]) last
      (Store.empty.document .releases last.dataId) := by
    intro last hlast
    obtain rfl : last = correctedVersion := by
      have hlatest : latest [silentVersion, correctedVersion] = [correctedVersion] := rfl
      exact List.mem_singleton.1 (hlatest ▸ hlast)
    refine fun _ => ⟨fun stored hstored => (by cases hstored), fun r hr version hversion => ?_⟩
    have hnone : lastReplacing concreteRuntime .releases [silentVersion, correctedVersion] r = none := by
      revert hr
      cases r <;> decide +kernel
    exact absurd (hnone.symm.trans hversion) (by simp)
  have hruns : ((Operation.processBatch 2 .releases [silentVersion, correctedVersion]).run concreteRuntime 1
      Store.empty).isOk ∧
      (eachBatch concreteRuntime 1 .releases [(2, silentVersion), (3, correctedVersion)] Store.empty).isOk := by
    decide +kernel
  cases hbatched : (Operation.processBatch 2 .releases [silentVersion, correctedVersion]).run concreteRuntime 1
      Store.empty with
  | error e => rw [hbatched] at hruns; cases hruns.1
  | ok batched =>
    cases heach : eachBatch concreteRuntime 1 .releases [(2, silentVersion), (3, correctedVersion)]
        Store.empty with
    | error e => rw [heach] at hruns; cases hruns.2
    | ok each =>
      refine ⟨batched, each, rfl, rfl, ?_⟩
      exact (repeated_documents_iff concreteRuntime 1 .releases 2
        [(2, silentVersion), (3, correctedVersion)] Store.empty
        fun dataId => honest_of_distinct (by simp [silentVersion, correctedVersion]) rfl dataId).2
          (fun _ => hnothing) batched each hbatched heach

/-- The batch loses the company credits of the version it leaves out. -/
theorem superseded_credits_are_lost :
    (∀ dataId, Honest (versionsOf dataId [creditedVersion, silentVersion])
      (Store.empty.document .releases dataId)) ∧
    ∃ batched each,
      (Operation.processBatch 2 .releases [creditedVersion, silentVersion]).run concreteRuntime 1
        Store.empty = .ok batched ∧
      eachBatch concreteRuntime 1 .releases [(2, creditedVersion), (3, silentVersion)] Store.empty = .ok each ∧
      ¬batched.SameDocuments each := by
  refine ⟨fun dataId => honest_of_distinct (by simp [creditedVersion, silentVersion]) rfl dataId, ?_⟩
  have hcount : ((Operation.processBatch 2 .releases [creditedVersion, silentVersion]).run concreteRuntime 1
      Store.empty).toOption.map (fun st => (st.edges .creditedTo).card) = some 0 := by decide +kernel
  have hcount' : (eachBatch concreteRuntime 1 .releases [(2, creditedVersion), (3, silentVersion)]
      Store.empty).toOption.map (fun st => (st.edges .creditedTo).card) = some 1 := by decide +kernel
  cases hbatched : (Operation.processBatch 2 .releases [creditedVersion, silentVersion]).run concreteRuntime 1
      Store.empty with
  | error e => rw [hbatched] at hcount; cases hcount
  | ok batched =>
    cases heach : eachBatch concreteRuntime 1 .releases [(2, creditedVersion), (3, silentVersion)]
        Store.empty with
    | error e => rw [heach] at hcount'; cases hcount'
    | ok each =>
      refine ⟨batched, each, rfl, rfl, fun hsame => ?_⟩
      rw [hbatched] at hcount
      rw [heach] at hcount'
      have hnone : (batched.edges .creditedTo).card = 0 := Option.some.inj hcount
      have hone : (each.edges .creditedTo).card = 1 := Option.some.inj hcount'
      rw [← hsame.edges .creditedTo (by decide), hnone] at hone
      cases hone

end Tableinator
