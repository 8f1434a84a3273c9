import BrokeredRpc.ClientConfig
import BrokeredRpc.Properties
import Mathlib.Data.List.Nodup
import Mathlib.Data.List.Perm.Subperm
import Mathlib.Logic.Relation

/-!
# Written forms are read back

Properties, settings, timeouts and durations are written down as trees. A tree can
be written otherwise without a change of meaning: the members of an object come in
another order (`Reordered`), and the object of a record loses members that are `null`
or gets members that no record has (`Restated`). What is written is read back, and
any number of such changes leaves what is read as it is, also where that is nothing.

A record has a second form, the list of its values. An object is read as the list of
its values under the known keys, `null` where there is none (`ofJson?_object`), so
that the two forms agree and only lookups matter.

Timeouts and durations know exactly their keys: an object with a further key is
refused.

* `Restated.ofJson?_properties`, `Restated.ofJson?_config`, `Reordered.ofJson?_timeout`
  and `Reordered.ofJson?_duration`: what one change leaves of what is read;
* `written_forms_agree`: the forms of all four kinds of values agree, and a duration
  is read from any seconds and nanoseconds that make one.
-/
namespace BrokeredRpc

namespace Table

variable {α : Type}

theorem length_keys (t : Table α) : t.keys.length = t.size := List.length_map _

theorem size_ofList {l : List (String × α)} (hn : (l.map Prod.fst).Nodup) :
    (ofList l).size = l.length := by
  have hperm : (ofList l).keys.Perm (l.map Prod.fst) :=
    (List.perm_ext_iff_of_nodup (nodup_keys _) hn).2 fun _ => mem_keys_ofList
  rw [← length_keys, hperm.length_eq, List.length_map]

theorem size_ofList_lt {pre post : List (String × α)} {key : String}
    (hk : key ∉ (pre ++ post).map Prod.fst) (value : α) :
    (ofList (pre ++ post)).size < (ofList (pre ++ (key, value) :: post)).size := by
  have hn : (key :: (ofList (pre ++ post)).keys).Nodup :=
    List.nodup_cons.2 ⟨fun hm => hk (mem_keys_ofList.1 hm), nodup_keys _⟩
  have hsub : key :: (ofList (pre ++ post)).keys ⊆ (ofList (pre ++ (key, value) :: post)).keys := by
    intro k hm
    rw [List.mem_cons, mem_keys_ofList, List.map_append, List.mem_append] at hm
    rw [mem_keys_ofList, List.map_append, List.map_cons, List.mem_append, List.mem_cons]
    exact or_left_comm.1 hm
  have hle := (hn.subperm hsub).length_le
  rw [List.length_cons, length_keys, length_keys] at hle
  exact hle

theorem toList_of_size_one {t : Table α} {key : String} {value : α} (h : t.size = 1)
    (hg : t.get? key = some value) : t.toList = [(key, value)] := by
  obtain ⟨e, he⟩ := List.length_eq_one_iff.1 h
  have hm := mem_toList_iff.2 hg
  rw [he, List.mem_singleton] at hm
  rw [he, hm]

end Table

namespace Json

/-! ## Members of an object -/

/-- The value under a key, `null` if there is none. -/
def lookup (members : List (String × Json)) (key : String) : Json :=
  ((Table.ofList members).get? key).getD .null

/-- The list of the values of an object. -/
def listed : Json → Json
  | .object members => .array (members.map Prod.snd)
  | tree => tree

theorem map_lookup {members : List (String × Json)} (hn : (members.map Prod.fst).Nodup) :
    (members.map Prod.fst).map (lookup members) = members.map Prod.snd := by
  rw [List.map_map]
  refine List.map_congr_left fun e he => ?_
  rw [Function.comp_apply, lookup, Table.get?_ofList_of_mem hn he]
  rfl

theorem get?_ofList_middle {pre post : List (String × Json)} {key k : String} (hne : key ≠ k)
    (value : Json) : (Table.ofList (pre ++ (key, value) :: post)).get? k =
      (Table.ofList (pre ++ post)).get? k := by
  rw [Table.get?_ofList_append, Table.get?_ofList_append, Table.get?_ofList_cons, if_neg hne,
    Option.or_none]

/-! ## The same tree in other words -/

/-- The tree with the members of one of its objects in another order. Members of one key keep
theirs. -/
inductive Reordered : Json → Json → Prop
  | here {members members' : List (String × Json)}
      (h : ∀ key, members.filter (·.1 == key) = members'.filter (·.1 == key)) :
      Reordered (.object members) (.object members')
  | within (pre post : List (String × Json)) (key : String) {value value' : Json}
      (h : Reordered value value') :
      Reordered (.object (pre ++ (key, value) :: post)) (.object (pre ++ (key, value') :: post))

/-- The object of a record in other words: reordered, without a member that is `null` and need not
be there, or with a member that no such record has. -/
inductive Restated (known optional : List String) : Json → Json → Prop
  | reordered {tree tree' : Json} (h : Reordered tree tree') : Restated known optional tree tree'
  | dropped (pre post : List (String × Json)) {key : String} (h : key ∈ optional)
      (hpre : key ∉ pre.map Prod.fst) :
      Restated known optional (.object (pre ++ (key, .null) :: post)) (.object (pre ++ post))
  | added (pre post : List (String × Json)) {key : String} (h : key ∉ known) (value : Json) :
      Restated known optional (.object (pre ++ post)) (.object (pre ++ (key, value) :: post))

/-- Members with different keys may come in any order. -/
theorem Reordered.of_perm {members members' : List (String × Json)}
    (hn : (members.map Prod.fst).Nodup) (hp : members.Perm members') :
    Reordered (.object members) (.object members') := by
  refine .here fun key => ?_
  have hkeys : (members.filter (·.1 == key)).map Prod.fst =
      (members.map Prod.fst).filter (· == key) := by
    rw [List.filter_map]
    rfl
  have hshort : (members.filter (·.1 == key)).length ≤ 1 := by
    rw [← List.length_map, hkeys, ← List.count_eq_length_filter]
    exact List.nodup_iff_count_le_one.1 hn key
  have hfilter := hp.filter (·.1 == key)
  revert hshort hfilter
  generalize members.filter (·.1 == key) = l, members'.filter (·.1 == key) = l'
  intro hshort hfilter
  match l, hshort with
  | [], _ => exact hfilter.nil_eq
  | [e], _ => exact List.singleton_perm.1 hfilter

namespace Reordered

/-- What reordering leaves of the fields of an object: at most one has another value, and that one
is reordered itself. -/
theorem fields {members members' : List (String × Json)}
    (h : Reordered (.object members) (.object members')) :
    Table.ofList members = Table.ofList members' ∨
      ∃ rest key value value', Reordered value value' ∧
        Table.ofList members = Table.insert rest key value ∧
        Table.ofList members' = Table.insert rest key value' := by
  generalize htree : Json.object members = tree, htree' : Json.object members' = tree' at h
  cases h with
  | here h =>
    cases htree
    cases htree'
    refine .inl (Table.ext_get? fun k => ?_)
    rw [← Table.get?_ofList_filter, h, Table.get?_ofList_filter]
  | within pre post key h =>
    cases htree
    cases htree'
    cases hpost : (Table.ofList post).get? key with
    | some later =>
      refine .inl (Table.ext_get? fun k => ?_)
      by_cases hk : key = k
      · subst hk
        rw [Table.get?_ofList_append, Table.get?_ofList_append, Table.get?_ofList_cons,
          Table.get?_ofList_cons, hpost]
        rfl
      · rw [get?_ofList_middle hk, get?_ofList_middle hk]
    | none =>
      have hinsert : ∀ value, Table.ofList (pre ++ (key, value) :: post) =
          (Table.ofList (pre ++ post)).insert key value := by
        refine fun value => Table.ext_get? fun k => ?_
        rw [Table.get?_insert]
        by_cases hk : key = k
        · subst hk
          rw [Table.get?_ofList_append, Table.get?_ofList_cons, hpost, if_pos rfl, if_pos rfl]
          rfl
        · rw [get?_ofList_middle hk, if_neg hk]
      exact .inr ⟨_, key, _, _, h, hinsert _, hinsert _⟩

theorem objects {tree tree' : Json} (h : Reordered tree tree') :
    ∃ members members', tree = .object members ∧ tree' = .object members' := by
  cases h <;> exact ⟨_, _, rfl, rfl⟩

theorem lookup {members members' : List (String × Json)}
    (h : Reordered (.object members) (.object members')) (key : String) :
    Json.lookup members key = Json.lookup members' key ∨
      Reordered (Json.lookup members key) (Json.lookup members' key) := by
  rcases h.fields with hsame | ⟨rest, k, value, value', hv, hm, hm'⟩
  · rw [Json.lookup, Json.lookup, hsame]
    exact .inl rfl
  · rw [Json.lookup, Json.lookup, hm, hm', Table.get?_insert, Table.get?_insert]
    split
    · exact .inr hv
    · exact .inl rfl

theorem size_fields {members members' : List (String × Json)}
    (h : Reordered (.object members) (.object members')) :
    (Table.ofList members).size = (Table.ofList members').size := by
  rcases h.fields with hsame | ⟨rest, key, value, value', -, hm, hm'⟩
  · rw [hsame]
  · rw [hm, hm', Table.size_insert]

/-- A reader sees no difference under any key. -/
theorem read {α : Type} {reader : Json → Option α}
    (hreader : ∀ {value value'}, Reordered value value' → reader value = reader value')
    {members members' : List (String × Json)}
    (h : Reordered (.object members) (.object members')) (key : String) :
    reader (Json.lookup members key) = reader (Json.lookup members' key) :=
  (h.lookup key).elim (congrArg reader) hreader

theorem not_text {tree tree' : Json} (h : Reordered tree tree') :
    tree.text? = none ∧ tree'.text? = none := by cases h <;> exact ⟨rfl, rfl⟩

theorem optionalText? {tree tree' : Json} (h : Reordered tree tree') :
    tree.optionalText? = tree'.optionalText? := by cases h <;> rfl

theorem natBelow? {tree tree' : Json} (h : Reordered tree tree') (bound : Nat) :
    tree.natBelow? bound = tree'.natBelow? bound := by cases h <;> rfl

end Reordered

theorem Restated.objects {known optional : List String} {tree tree' : Json}
    (h : Restated known optional tree tree') :
    ∃ members members', tree = .object members ∧ tree' = .object members' := by
  cases h with
  | reordered h => exact h.objects
  | dropped | added => exact ⟨_, _, rfl, rfl⟩

/-- What a restatement leaves of the value under a known key. -/
theorem Restated.read {known optional : List String} {α : Type} {reader : Json → Option α}
    (hreader : ∀ {value value'}, Reordered value value' → reader value = reader value')
    {members members' : List (String × Json)}
    (h : Restated known optional (.object members) (.object members')) {key : String}
    (hk : key ∈ known) : reader (Json.lookup members key) = reader (Json.lookup members' key) := by
  generalize htree : Json.object members = tree, htree' : Json.object members' = tree' at h
  cases h with
  | reordered h =>
    subst htree htree'
    exact h.read hreader key
  | @dropped pre post k _ hpre =>
    cases htree
    cases htree'
    refine congrArg reader ?_
    rw [Json.lookup, Json.lookup]
    by_cases he : k = key
    · subst he
      rw [Table.get?_ofList_append, Table.get?_ofList_append, Table.get?_ofList_cons,
        Table.get?_ofList_of_absent hpre, if_pos rfl]
      cases (Table.ofList post).get? k <;> rfl
    · rw [get?_ofList_middle he]
  | @added pre post k hnot value =>
    cases htree
    cases htree'
    have he : k ≠ key := fun he => hnot (he ▸ hk)
    rw [Json.lookup, Json.lookup, get?_ofList_middle he]

/-! ## Texts -/

theorem mapM_of_mem {α β : Type} {f : α → Option β} {a : α} (hf : f a = none) :
    ∀ {l : List α}, a ∈ l → l.mapM f = none
  | b :: rest, hm => by
    rw [List.mapM_cons]
    rcases List.mem_cons.1 hm with rfl | hm
    · rw [hf]
      rfl
    · rw [mapM_of_mem hf hm]
      cases f b <;> rfl

theorem texts?_of_get? {members : List (String × Json)} {key : String} {value : Json}
    (h : (Table.ofList members).get? key = some value) (hv : value.text? = none) :
    (object members).texts? = none := by
  have hentries : (Table.ofList members).toList.mapM (fun e => e.2.text?.map (e.1, ·)) = none :=
    mapM_of_mem (by rw [hv]; rfl) (Table.mem_toList_iff.2 h)
  exact congrArg (Option.bind · _) hentries

theorem Reordered.texts? {tree tree' : Json} (h : Reordered tree tree') :
    tree.texts? = tree'.texts? := by
  obtain ⟨members, members', rfl, rfl⟩ := h.objects
  rcases h.fields with hsame | ⟨rest, key, value, value', hv, hm, hm'⟩
  · rw [Json.texts?, Json.texts?, Json.fields, Json.fields, hsame]
  · have hg : (Table.ofList members).get? key = some value := by
      rw [hm, Table.get?_insert_self]
    have hg' : (Table.ofList members').get? key = some value' := by
      rw [hm', Table.get?_insert_self]
    obtain ⟨hv, hv'⟩ := hv.not_text
    rw [texts?_of_get? hg hv, texts?_of_get? hg' hv']

@[simp] theorem texts?_ofTexts (texts : Table String) : (ofTexts texts).texts? = some texts := by
  have hmapM : ∀ l : List (String × String),
      (l.map fun e => (e.1, Json.text e.2)).mapM (fun e => e.2.text?.map (e.1, ·)) = some l := by
    intro l
    induction l with
    | nil => rfl
    | cons e rest ih =>
      rw [List.map_cons, List.mapM_cons, ih]
      rfl
  rw [ofTexts, Json.texts?, fields, Table.ofList_toList]
  refine (congrArg (Option.bind · _) (hmapM texts.toList)).trans ?_
  exact congrArg some texts.ofList_toList

end Json

/-! ## Properties -/

namespace Properties

/-- The keys of the fields that need not be set. -/
def optionalKeys : List String :=
  ["content_type", "content_encoding", "correlation_id", "reply_to", "message_id", "app_id"]

/-- The keys of properties, in the order in which they are listed. -/
def keys : List String :=
  ["content_type", "content_encoding", "headers", "correlation_id", "reply_to", "message_id",
    "app_id"]

theorem ofJson?_object (members : List (String × Json)) :
    ofJson? (.object members) = ofJson? (.array (keys.map (Json.lookup members))) := by
  simp only [keys, List.map_cons, List.map_nil, ofJson?, Json.lookup]
  cases (Table.ofList members).get? "headers" <;> rfl

/-- What a change that no reader of a value sees leaves of the list of values. -/
theorem ofJson?_congr {members members' : List (String × Json)}
    (htext : ∀ key ∈ keys,
      (Json.lookup members key).optionalText? = (Json.lookup members' key).optionalText?)
    (htexts : (Json.lookup members "headers").texts? = (Json.lookup members' "headers").texts?) :
    ofJson? (.object members) = ofJson? (.object members') := by
  rw [ofJson?_object, ofJson?_object]
  simp only [keys, List.map_cons, List.map_nil, ofJson?, htexts]
  rw [htext "content_type" (by decide), htext "content_encoding" (by decide),
    htext "correlation_id" (by decide), htext "reply_to" (by decide),
    htext "message_id" (by decide), htext "app_id" (by decide)]

/-- The list of the values of an object in the order of the keys is read as the object is. -/
theorem ofJson?_listed {members : List (String × Json)} (hk : members.map Prod.fst = keys) :
    ofJson? (Json.listed (.object members)) = ofJson? (.object members) := by
  rw [ofJson?_object, ← hk, Json.map_lookup (hk ▸ by decide), Json.listed]

theorem ofJson?_toJson_listed (p : Properties) : ofJson? p.toJson.listed = some p := by
  simp [toJson, Json.listed, ofJson?]

theorem ofJson?_toJson (p : Properties) : ofJson? p.toJson = some p :=
  (ofJson?_listed rfl).symm.trans p.ofJson?_toJson_listed

end Properties

theorem Json.Restated.ofJson?_properties {tree tree' : Json}
    (h : Restated Properties.keys Properties.optionalKeys tree tree') :
    Properties.ofJson? tree = Properties.ofJson? tree' := by
  obtain ⟨members, members', rfl, rfl⟩ := h.objects
  exact Properties.ofJson?_congr (fun key hk => h.read Reordered.optionalText? hk)
    (h.read Reordered.texts? (by decide))

/-! ## Durations -/

namespace Duration

/-- So many seconds and nanoseconds, written down as an object. -/
def parts (secs nanos : Nat) : Json :=
  .object [("secs", .integer secs), ("nanos", .integer nanos)]

theorem ofParts?_null (tree : Json) : ofParts? .null tree = none ∧ ofParts? tree .null = none := by
  refine ⟨rfl, ?_⟩
  rw [ofParts?]
  cases tree.natBelow? UInt64.size <;> rfl

theorem ofJson?_object (members : List (String × Json)) :
    ofJson? (.object members) =
      if (Table.ofList members).size = 2 then
        ofJson? (.array [Json.lookup members "secs", Json.lookup members "nanos"])
      else none := by
  simp only [ofJson?, Json.lookup]
  split
  · cases (Table.ofList members).get? "secs" with
    | none => rfl
    | some secs =>
      cases (Table.ofList members).get? "nanos" with
      | none => exact (ofParts?_null secs).2.symm
      | some => rfl
  · rfl

theorem ofParts?_congr {secs secs' nanos nanos' : Json}
    (hsecs : secs.natBelow? UInt64.size = secs'.natBelow? UInt64.size)
    (hnanos : nanos.natBelow? UInt32.size = nanos'.natBelow? UInt32.size) :
    ofParts? secs nanos = ofParts? secs' nanos' := by
  rw [ofParts?, ofParts?, hsecs, hnanos]

theorem natBelow?_integer {n bound : Nat} (h : n < bound) :
    (Json.integer n).natBelow? bound = some n := by
  simp [Json.natBelow?, h]

theorem ofJson?_pair {secs nanos : Nat} (hsecs : secs < UInt64.size)
    (hnanos : nanos < UInt32.size) :
    ofJson? (parts secs nanos).listed = ofNanos? (1_000_000_000 * secs + nanos) := by
  rw [parts, Json.listed, List.map_cons, List.map_cons, List.map_nil, ofJson?, ofParts?,
    natBelow?_integer hsecs, natBelow?_integer hnanos]
  rfl

theorem ofJson?_parts (secs nanos : Nat) :
    ofJson? (parts secs nanos) = ofJson? (parts secs nanos).listed := by
  have hkeys : ["secs", "nanos"].Nodup := by decide
  have hn : ([("secs", .integer secs), ("nanos", .integer nanos)].map
      (Prod.fst : String × Json → String)).Nodup := hkeys
  rw [parts, ofJson?_object, if_pos]
  · exact congrArg (fun values => ofJson? (.array values)) (Json.map_lookup hn)
  · exact Table.size_ofList hn

theorem ofJson?_toJson (d : Duration) : ofJson? d.toJson = some d := by
  have hnanos : d.nanos < UInt32.size := Nat.lt_trans d.nanos_lt (by decide)
  rw [← d.ofNanos?_toNanos]
  exact (ofJson?_parts d.secs d.nanos).trans (ofJson?_pair d.secs_lt hnanos)

theorem isSome_ofNanos? (n : Nat) : (ofNanos? n).isSome ↔ n / 1_000_000_000 < UInt64.size := by
  rw [ofNanos?]
  split <;> simp_all

theorem size_of_ofJson? {members : List (String × Json)} {d : Duration}
    (h : ofJson? (.object members) = some d) : (Table.ofList members).size = 2 := by
  rw [ofJson?_object] at h
  split at h
  · assumption
  · cases h

end Duration

theorem Json.Reordered.ofJson?_duration {tree tree' : Json} (h : Reordered tree tree') :
    Duration.ofJson? tree = Duration.ofJson? tree' := by
  obtain ⟨members, members', rfl, rfl⟩ := h.objects
  rw [Duration.ofJson?_object, Duration.ofJson?_object, h.size_fields]
  congr 1
  exact Duration.ofParts?_congr (h.read (fun hv => hv.natBelow? _) "secs")
    (h.read (fun hv => hv.natBelow? _) "nanos")

/-! ## Timeouts -/

namespace Timeout

theorem size_of_ofJson? {members : List (String × Json)} {t : Timeout}
    (h : ofJson? (.object members) = some t) : (Table.ofList members).size = 1 := by
  rw [ofJson?] at h
  rw [Table.size]
  split at h
  · next he => rw [he]; rfl
  · next he => rw [he]; rfl
  · cases h

theorem ofJson?_after {members : List (String × Json)} {key : String} {inner : Json}
    (h : (Table.ofList members).toList = [(key, inner)]) (hne : inner ≠ .null) :
    ofJson? (.object members) =
      if key = "After" then (Duration.ofJson? inner).map after else none := by
  rw [ofJson?, h]
  split
  · next he =>
    cases he
    exact absurd rfl hne
  · next he =>
    cases he
    rfl
  · next hnot =>
    rw [if_neg]
    rintro rfl
    exact hnot _ rfl

theorem ofJson?_toJson (t : Timeout) : ofJson? t.toJson = some t := by
  cases t with
  | infinite => rfl
  | after d =>
    have hl : (Table.ofList [("After", d.toJson)]).toList = [("After", d.toJson)] := rfl
    rw [toJson, ofJson?_after hl (by rw [Duration.toJson]; exact Json.noConfusion), if_pos rfl,
      d.ofJson?_toJson]
    rfl

end Timeout

theorem Json.Reordered.ofJson?_timeout {tree tree' : Json} (h : Reordered tree tree') :
    Timeout.ofJson? tree = Timeout.ofJson? tree' := by
  obtain ⟨members, members', rfl, rfl⟩ := h.objects
  by_cases hone : (Table.ofList members).size = 1
  · have hone' := h.size_fields.symm.trans hone
    rcases h.fields with hsame | ⟨rest, key, value, value', hv, hm, hm'⟩
    · rw [Timeout.ofJson?, Timeout.ofJson?, hsame]
    · have hl := Table.toList_of_size_one hone (hm ▸ Table.get?_insert_self rest key value)
      have hl' := Table.toList_of_size_one hone' (hm' ▸ Table.get?_insert_self rest key value')
      have hduration := hv.ofJson?_duration
      obtain ⟨_, _, rfl, rfl⟩ := hv.objects
      rw [Timeout.ofJson?_after hl Json.noConfusion, Timeout.ofJson?_after hl' Json.noConfusion,
        hduration]
  · have hnone : ∀ {members : List (String × Json)}, (Table.ofList members).size ≠ 1 →
        Timeout.ofJson? (.object members) = none := fun hne =>
      Option.eq_none_iff_forall_ne_some.2 fun _ he => hne (Timeout.size_of_ofJson? he)
    rw [hnone hone, hnone fun he => hone (h.size_fields.trans he)]

/-! ## Settings -/

namespace ClientConfig

/-- The keys of settings. -/
def keys : List String := ["timeout"]

theorem ofJson?_object (members : List (String × Json)) :
    ofJson? (.object members) = ofJson? (.array (keys.map (Json.lookup members))) := by
  simp only [keys, List.map_cons, List.map_nil, ofJson?, Json.lookup]
  cases (Table.ofList members).get? "timeout" <;> rfl

theorem ofJson?_listed {members : List (String × Json)} (hk : members.map Prod.fst = keys) :
    ofJson? (Json.listed (.object members)) = ofJson? (.object members) := by
  rw [ofJson?_object, ← hk, Json.map_lookup (hk ▸ by decide), Json.listed]

theorem ofJson?_toJson_listed (config : ClientConfig) :
    ofJson? config.toJson.listed = some config := by
  show (Timeout.ofJson? config.timeout.toJson).map mk = some config
  rw [Timeout.ofJson?_toJson]
  rfl

theorem ofJson?_toJson (config : ClientConfig) : ofJson? config.toJson = some config :=
  (ofJson?_listed rfl).symm.trans config.ofJson?_toJson_listed

end ClientConfig

theorem Json.Restated.ofJson?_config {tree tree' : Json}
    (h : Restated ClientConfig.keys [] tree tree') :
    ClientConfig.ofJson? tree = ClientConfig.ofJson? tree' := by
  obtain ⟨members, members', rfl, rfl⟩ := h.objects
  rw [ClientConfig.ofJson?_object, ClientConfig.ofJson?_object]
  exact congrArg (Option.map ClientConfig.mk)
    (h.read Reordered.ofJson?_timeout (List.mem_singleton_self "timeout"))

/-! ## All forms -/

/-- What is written is read back, restating a tree leaves alone what is read from it, and different
values are written differently. -/
structure RoundTrips {α : Type} (write : α → Json) (read : Json → Option α)
    (restated : Json → Json → Prop) : Prop where
  reads : ∀ value, read (write value) = some value
  restates : ∀ {tree tree'}, Relation.ReflTransGen restated tree tree' → read tree' = read tree
  injective : Function.Injective write

theorem RoundTrips.of_step {α : Type} {write : α → Json} {read : Json → Option α}
    {restated : Json → Json → Prop} (hreads : ∀ value, read (write value) = some value)
    (hstep : ∀ {tree tree'}, restated tree tree' → read tree = read tree') :
    RoundTrips write read restated := by
  refine ⟨hreads, fun hchanges => ?_, fun a b he => ?_⟩
  · induction hchanges with
    | refl => rfl
    | tail _ hlast ih => exact (hstep hlast).symm.trans ih
  · exact Option.some.inj ((hreads a).symm.trans (he ▸ hreads b))

/-- An object that is read has no key too many: with a further key it is refused. -/
def RefusesFurtherKeys {α : Type} (read : Json → Option α) : Prop :=
  ∀ (pre post : List (String × Json)) (key : String) (value : Json),
    (read (.object (pre ++ post))).isSome → key ∉ (pre ++ post).map Prod.fst →
      read (.object (pre ++ (key, value) :: post)) = none

theorem RefusesFurtherKeys.of_size {α : Type} {read : Json → Option α} {size : Nat}
    (h : ∀ {members a}, read (.object members) = some a → (Table.ofList members).size = size) :
    RefusesFurtherKeys read := by
  intro pre post key value hread hk
  obtain ⟨a, ha⟩ := Option.isSome_iff_exists.1 hread
  refine Option.eq_none_iff_forall_ne_some.2 fun b hb => ?_
  have hlt := Table.size_ofList_lt hk value
  rw [h ha, h hb] at hlt
  exact Nat.lt_irrefl size hlt

/-- **A duration** is read from its seconds and nanoseconds, in either order or as a pair, exactly
if what the nanoseconds carry over leaves the seconds in range. -/
theorem Duration.ofJson?_restated {secs nanos : Nat} (hsecs : secs < UInt64.size)
    (hnanos : nanos < UInt32.size) {tree : Json}
    (h : Relation.ReflTransGen Json.Reordered (parts secs nanos) tree ∨
      tree = (parts secs nanos).listed) :
    ((ofJson? tree).isSome ↔ secs + nanos / 1_000_000_000 < UInt64.size) ∧
      ∀ d, ofJson? tree = some d →
        d.toNanos = 1_000_000_000 * secs + nanos ∧ d.nanos < 1_000_000_000 := by
  have hread : ofJson? tree = ofNanos? (1_000_000_000 * secs + nanos) := by
    rw [← ofJson?_pair hsecs hnanos]
    rcases h with hchanges | rfl
    · rw [← ofJson?_parts]
      exact (RoundTrips.of_step ofJson?_toJson Json.Reordered.ofJson?_duration).restates hchanges
    · rfl
  rw [hread, isSome_ofNanos?, Nat.mul_add_div (by decide)]
  exact ⟨Iff.rfl, fun d hd => ⟨toNanos_of_ofNanos? hd, d.nanos_lt⟩⟩

/-- **The written forms agree.** Properties and settings are read back from their objects, also
after any number of restatements, and from the lists of their values. Timeouts and durations are
read back from their objects with their keys in any order, but not with a further key. Different
values are written differently, and a duration is read from all seconds and nanoseconds that make
one. -/
theorem written_forms_agree :
    (RoundTrips Properties.toJson Properties.ofJson?
        (Json.Restated Properties.keys Properties.optionalKeys) ∧
      ∀ p : Properties, Properties.ofJson? p.toJson.listed = some p) ∧
    (RoundTrips ClientConfig.toJson ClientConfig.ofJson? (Json.Restated ClientConfig.keys []) ∧
      ∀ config : ClientConfig, ClientConfig.ofJson? config.toJson.listed = some config) ∧
    (RoundTrips Timeout.toJson Timeout.ofJson? Json.Reordered ∧
      RefusesFurtherKeys Timeout.ofJson?) ∧
    (RoundTrips Duration.toJson Duration.ofJson? Json.Reordered ∧
      RefusesFurtherKeys Duration.ofJson?) ∧
    ∀ {secs nanos : Nat}, secs < UInt64.size → nanos < UInt32.size → ∀ {tree : Json},
      Relation.ReflTransGen Json.Reordered (Duration.parts secs nanos) tree ∨
          tree = (Duration.parts secs nanos).listed →
        ((Duration.ofJson? tree).isSome ↔ secs + nanos / 1_000_000_000 < UInt64.size) ∧
          ∀ d, Duration.ofJson? tree = some d →
            d.toNanos = 1_000_000_000 * secs + nanos ∧ d.nanos < 1_000_000_000 := by
  refine ⟨⟨?_, Properties.ofJson?_toJson_listed⟩, ⟨?_, ClientConfig.ofJson?_toJson_listed⟩,
    ⟨?_, .of_size Timeout.size_of_ofJson?⟩, ⟨?_, .of_size Duration.size_of_ofJson?⟩,
    fun hsecs hnanos _ h => Duration.ofJson?_restated hsecs hnanos h⟩
  · exact .of_step Properties.ofJson?_toJson Json.Restated.ofJson?_properties
  · exact .of_step ClientConfig.ofJson?_toJson Json.Restated.ofJson?_config
  · exact .of_step Timeout.ofJson?_toJson Json.Reordered.ofJson?_timeout
  · exact .of_step Duration.ofJson?_toJson Json.Reordered.ofJson?_duration

theorem written_forms_agree_carry :
    (∃ p : Properties, p.header "a" = some "1" ∧
      Properties.ofJson? (.object [("headers", .object [("a", .text "1")]), ("app_id", .null)]) =
        some p ∧
      Properties.ofJson? (.object [("note", .bool true), ("headers", .object [("a", .text "1")])]) =
        some p) ∧
    Timeout.ofJson? (.object [("note", .null), ("Infinite", .null)]) = none ∧
    (∃ d : Duration, d.toNanos = 18_446_744_073_709_551_615_999_999_999 ∧
      Duration.ofJson? (.object [("nanos", .integer 1_999_999_999),
        ("secs", .integer 18_446_744_073_709_551_614)]) = some d) ∧
    Duration.ofJson? (.array [.integer 18_446_744_073_709_551_615, .integer 1_000_000_000]) =
      none := by
  obtain ⟨⟨hproperties, -⟩, -, ⟨-, htimeout⟩, -, hduration⟩ := written_forms_agree
  refine ⟨⟨{ headers := .ofList [("a", "1")] }, by decide, by decide, ?_⟩, ?_, ?_, ?_⟩
  · have happ : "app_id" ∈ Properties.optionalKeys := by decide
    have hnote : "note" ∉ Properties.keys := by decide
    exact (hproperties.restates (.tail (.single (.dropped [_] [] happ (by decide)))
      (.added [] [_] hnote _))).trans (by decide)
  · exact htimeout [] [("Infinite", .null)] "note" .null (by decide) (by decide)
  · have hsecs : 18_446_744_073_709_551_614 < UInt64.size := by decide
    have hnanos : 1_999_999_999 < UInt32.size := by decide
    obtain ⟨haccepted, hread⟩ := hduration hsecs hnanos
      (.inl (.single (.of_perm (by decide) (List.Perm.swap _ _ []))))
    obtain ⟨d, hd⟩ := Option.isSome_iff_exists.1 (haccepted.2 (by decide))
    exact ⟨d, (hread d hd).1, hd⟩
  · have hsecs : 18_446_744_073_709_551_615 < UInt64.size := by decide
    have hnanos : 1_000_000_000 < UInt32.size := by decide
    obtain ⟨hrefused, -⟩ := hduration hsecs hnanos (.inr rfl)
    exact Option.not_isSome_iff_eq_none.1 fun h => absurd (hrefused.1 h) (by decide)

/-- A timeout with a limit is not read any more when its object gets a further key. -/
theorem further_key_counts : ¬ ∀ (timeout : Timeout) (pre post : List (String × Json))
    (key : String) (value : Json), timeout.toJson = .object (pre ++ post) →
      key ∉ ["Infinite", "After"] →
        Timeout.ofJson? (.object (pre ++ (key, value) :: post)) = some timeout := by
  intro h
  let second : Duration := ⟨1, 0, by decide, by decide⟩
  exact absurd (h (.after second) [("After", second.toJson)] [] "note" .null rfl (by decide))
    (by decide)

end BrokeredRpc
