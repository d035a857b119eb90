import TokenKit.Claims
import TokenKit.Lib.Pairs

/-!
# Writing and reading standard claims

Where the map has no name of a typed field, the object that `StandardClaims` writes names no member
twice, so a field reads what the field of that name wrote, and reading the object gives the claims
back with `exp` and `iat` in whole seconds (`deserialize_members`).

Where the map does have such a name, a field that was written is written twice, and the object does
not read (`filter_of_typedField`). One that was not takes the member, which is then missing in the
map. So the round trip gives the same claims exactly when the map has no such name
(`round_trip_iff`).
-/

namespace TokenKit

namespace DateTime

theorem ofNanos_nanos (t : DateTime) : ofNanos t.nanos = some t := by
  unfold ofNanos
  rw [dif_pos ⟨t.min_le, t.le_max⟩]

theorem nanos_of_ofNanos {nanos : ℤ} {t : DateTime} (h : ofNanos nanos = some t) :
    t.nanos = nanos := by
  unfold ofNanos at h
  split_ifs at h
  simp only [Option.some.injEq] at h
  rw [← h]

theorem ofTimestamp_timestamp (t : DateTime) : ofTimestamp t.timestamp = some t.truncSecs :=
  ofNanos_nanos t.truncSecs

end DateTime

namespace StandardClaims

variable {claims : StandardClaims}

def truncSecs (claims : StandardClaims) : StandardClaims :=
  { claims with
    exp := claims.exp.map DateTime.truncSecs
    iat := claims.iat.map DateTime.truncSecs }

/-! ## Members and fields -/

theorem typedField_of_nodup {members : List (String × Json)} (hnd : (members.map Prod.fst).Nodup)
    (name : String) : typedField members name = some (members.lookup name) := by
  unfold typedField
  rw [List.filter_fst_eq hnd]
  cases members.lookup name <;> rfl

theorem filter_of_typedField {members : List (String × Json)} {name : String} {value : Json}
    {found : Option Json} (h : typedField members name = some found)
    (hmem : (name, value) ∈ members) :
    found = some value ∧ members.filter (fun m => m.1 = name) = [(name, value)] := by
  have hfilter : (name, value) ∈ members.filter fun m => m.1 = name := by
    simpa using hmem
  unfold typedField at h
  split at h
  · rename_i hnil
    rw [hnil] at hfilter
    cases hfilter
  · rename_i m hone
    rw [hone, List.mem_singleton] at hfilter
    subst hfilter
    exact ⟨(Option.some.inj h).symm, hone⟩
  · cases h

theorem mem_written {fields : List (String × Option Json)} {m : String × Json} :
    m ∈ written fields ↔ (m.1, some m.2) ∈ fields := by
  simp only [written, List.mem_filterMap, Option.map_eq_some_iff]
  refine ⟨?_, ?_⟩
  · rintro ⟨⟨name, value⟩, hf, v, hv, rfl⟩
    simp only at hv
    subst hv
    exact hf
  · intro hf
    exact ⟨_, hf, m.2, rfl, rfl⟩

theorem written_sublist : ∀ fields : List (String × Option Json),
    ((written fields).map Prod.fst).Sublist (fields.map Prod.fst)
  | [] => .slnil
  | (name, none) :: fields => (written_sublist fields).cons name
  | (name, some _) :: fields => (written_sublist fields).cons_cons name

@[simp] theorem map_fst_fields (claims : StandardClaims) :
    claims.fields.map Prod.fst = TYPED_FIELDS := rfl

theorem written_fields_sublist (claims : StandardClaims) :
    ((written claims.fields).map Prod.fst).Sublist TYPED_FIELDS :=
  written_sublist claims.fields

theorem mem_members_of_field {name : String} {value : Json}
    (h : (name, some value) ∈ claims.fields) : (name, value) ∈ claims.members :=
  List.mem_append_left _ (mem_written.2 h)

theorem map_fst_extra (claims : StandardClaims) :
    (claims.extra.entries.map fun e => (e.1, e.2)).map Prod.fst = claims.extra.keys := by
  rw [List.map_map]
  rfl

theorem map_fst_members (claims : StandardClaims) : claims.members.map Prod.fst
    = (written claims.fields).map Prod.fst ++ claims.extra.keys := by
  rw [members, List.map_append, map_fst_extra]

theorem nodup_names (h : ∀ name ∈ claims.extra, name ∉ TYPED_FIELDS) :
    (claims.members.map Prod.fst).Nodup := by
  rw [map_fst_members, List.nodup_append]
  refine ⟨(written_fields_sublist claims).nodup (by decide), claims.extra.keys_nodup, ?_⟩
  rintro name hname _ hextra rfl
  exact h name hextra ((written_fields_sublist claims).subset hname)

theorem lookup_members (h : ∀ name ∈ claims.extra, name ∉ TYPED_FIELDS) {name : String}
    {value : Option Json} (hf : (name, value) ∈ claims.fields) :
    claims.members.lookup name = value := by
  have hname : name ∈ TYPED_FIELDS := by
    rw [← map_fst_fields claims]
    exact List.mem_map_of_mem hf
  rcases value with _ | value
  · refine List.lookup_of_notMem ?_
    rw [map_fst_members, List.mem_append]
    rintro (hin | hin)
    · -- the field is unset, so no other field of that name is written
      obtain ⟨m, hm, rfl⟩ := List.mem_map.1 hin
      have hnd : (claims.fields.map Prod.fst).Nodup := by
        rw [map_fst_fields]
        decide
      have := List.inj_on_of_nodup_map hnd (mem_written.1 hm) hf rfl
      cases this
    · exact h name hin hname
  · exact List.lookup_of_mem (nodup_names h) (mem_members_of_field hf)

theorem lookup_members_of_notMem {name : String} (hname : name ∉ TYPED_FIELDS)
    (hextra : name ∉ claims.extra) : claims.members.lookup name = none := by
  refine List.lookup_of_notMem ?_
  rw [map_fst_members, List.mem_append]
  rintro (hin | hin)
  · exact hname ((written_fields_sublist claims).subset hin)
  · exact hextra hin

/-! ## Reading back -/

@[simp] theorem readString_map (s : Option String) : readString (s.map .str) = some s := by
  cases s <;> rfl

@[simp] theorem readTimestamp_map (t : Option DateTime) :
    readTimestamp (t.map fun t => .int t.timestamp) = some (t.map DateTime.truncSecs) := by
  cases t with
  | none => rfl
  | some t => simp [readTimestamp, DateTime.ofTimestamp_timestamp]

theorem mapM_stringOf (l : List String) : (l.map Json.str).mapM stringOf = some l := by
  induction l with
  | nil => rfl
  | cons s l ih => simp [stringOf, ih]

@[simp] theorem readStrings_written (l : List String) :
    readStrings (if l.isEmpty then none else some (.arr (l.map .str))) = some l := by
  cases l with
  | nil => rfl
  | cons s l => exact mapM_stringOf (s :: l)

theorem collectExtra_append {members rest : List (String × Json)}
    (h : ∀ m ∈ members, m.1 ∈ TYPED_FIELDS) :
    collectExtra (members ++ rest) = collectExtra rest := by
  induction members with
  | nil => rfl
  | cons m members ih =>
    rw [List.forall_mem_cons] at h
    rw [List.cons_append, collectExtra, ih h.2]
    exact if_pos (.inl h.1)

theorem collectExtra_entries : ∀ (entries : List (Sigma fun _ : String => Json))
    (hnd : entries.NodupKeys), (∀ e ∈ entries, e.1 ∉ TYPED_FIELDS) →
      collectExtra (entries.map fun e => (e.1, e.2)) = ⟨entries, hnd⟩
  | [], _, _ => rfl
  | e :: entries, hnd, h => by
    rw [List.forall_mem_cons] at h
    have hnd' := List.nodupKeys_cons.1 hnd
    have ih := collectExtra_entries entries hnd'.2 h.2
    rw [List.map_cons, collectExtra, ih]
    have hnew : e.1 ∉ (⟨entries, hnd'.2⟩ : AList fun _ : String => Json) := hnd'.1
    simp only [h.1, hnew, or_self, if_false]
    exact AList.insert_of_notMem hnew

theorem collectExtra_members (h : ∀ name ∈ claims.extra, name ∉ TYPED_FIELDS) :
    collectExtra claims.members = claims.extra := by
  rw [members, collectExtra_append, collectExtra_entries _ claims.extra.nodupKeys]
  · exact fun e he => h e.1 (List.mem_map_of_mem he)
  · exact fun m hm => (written_fields_sublist claims).subset (List.mem_map_of_mem hm)

/-- Reading what was written gives every field back, `exp` and `iat` in whole seconds, when the map
has no typed name. -/
theorem deserialize_members (h : ∀ name ∈ claims.extra, name ∉ TYPED_FIELDS) :
    (deserialize (.obj claims.members) : Option StandardClaims) = some claims.truncSecs := by
  have hfield : ∀ name value, (name, value) ∈ claims.fields →
      typedField claims.members name = some value := by
    intro name value hf
    rw [typedField_of_nodup (nodup_names h), lookup_members h hf]
  simp only [deserialize, collectExtra_members h]
  rw [hfield "sub" (claims.sub.map .str) (by simp [fields]),
    hfield "iss" (claims.iss.map .str) (by simp [fields]),
    hfield "aud" (claims.aud.map .str) (by simp [fields]),
    hfield "exp" (claims.exp.map fun t => .int t.timestamp) (by simp [fields]),
    hfield "iat" (claims.iat.map fun t => .int t.timestamp) (by simp [fields]),
    hfield "jti" (claims.jti.map .str) (by simp [fields]),
    hfield "role" (claims.role.map .str) (by simp [fields]),
    hfield "permissions" (if claims.permissions.isEmpty then none
      else some (.arr (claims.permissions.map .str))) (by simp [fields])]
  simp only [Option.bind_eq_bind, Option.bind_some, readString_map, readTimestamp_map,
    readStrings_written]
  rfl

/-! ## What an object that reads says -/

/-- The field `name` is there at most once, and reads as `value`. -/
def FieldReads {α : Type} (members : List (String × Json)) (name : String)
    (read : Option Json → Option α) (value : α) : Prop :=
  ∃ found, typedField members name = some found ∧ read found = some value

/-- Every field reads, and the map is what no field takes. -/
structure ReadsAs (members : List (String × Json)) (claims : StandardClaims) : Prop where
  sub : FieldReads members "sub" readString claims.sub
  iss : FieldReads members "iss" readString claims.iss
  aud : FieldReads members "aud" readString claims.aud
  exp : FieldReads members "exp" readTimestamp claims.exp
  iat : FieldReads members "iat" readTimestamp claims.iat
  jti : FieldReads members "jti" readString claims.jti
  role : FieldReads members "role" readString claims.role
  permissions : FieldReads members "permissions" readStrings claims.permissions
  extra : claims.extra = collectExtra members

theorem fieldReads_of_bind {α β : Type} {members : List (String × Json)} {name : String}
    {read : Option Json → Option α} {rest : α → Option β} {b : β}
    (h : (typedField members name >>= fun found => read found >>= rest) = some b) :
    ∃ value, FieldReads members name read value ∧ rest value = some b := by
  obtain ⟨found, hfound, h⟩ := Option.bind_eq_some_iff.1 h
  obtain ⟨value, hread, h⟩ := Option.bind_eq_some_iff.1 h
  exact ⟨value, ⟨found, hfound, hread⟩, h⟩

theorem readsAs_of_deserialize {members : List (String × Json)}
    (h : (deserialize (.obj members) : Option StandardClaims) = some claims) :
    ReadsAs members claims := by
  obtain ⟨sub, hsub, h⟩ := fieldReads_of_bind h
  obtain ⟨iss, hiss, h⟩ := fieldReads_of_bind h
  obtain ⟨aud, haud, h⟩ := fieldReads_of_bind h
  obtain ⟨exp, hexp, h⟩ := fieldReads_of_bind h
  obtain ⟨iat, hiat, h⟩ := fieldReads_of_bind h
  obtain ⟨jti, hjti, h⟩ := fieldReads_of_bind h
  obtain ⟨role, hrole, h⟩ := fieldReads_of_bind h
  obtain ⟨permissions, hpermissions, h⟩ := fieldReads_of_bind h
  cases h
  exact ⟨hsub, hiss, haud, hexp, hiat, hjti, hrole, hpermissions, rfl⟩

/-- Claims that every field reads are what the object reads as. -/
theorem deserialize_of_readsAs {members : List (String × Json)} (h : ReadsAs members claims) :
    (deserialize (.obj members) : Option StandardClaims) = some claims := by
  obtain ⟨⟨_, fsub, rsub⟩, ⟨_, fiss, riss⟩, ⟨_, faud, raud⟩, ⟨_, fexp, rexp⟩, ⟨_, fiat, riat⟩,
    ⟨_, fjti, rjti⟩, ⟨_, frole, rrole⟩, ⟨_, fpermissions, rpermissions⟩, hextra⟩ := h
  simp only [deserialize, Option.bind_eq_bind, Option.bind_some, *]
  rw [← hextra]
  rfl

/-- A field of which there is at most one reads when it can read that one, or none. -/
theorem exists_fieldReads {α : Type} {members : List (String × Json)} {name : String}
    {read : Option Json → Option α} (honce : (members.filter fun m => m.1 = name).length ≤ 1)
    (hmissing : ∃ value, read none = some value)
    (hread : ∀ written, (name, written) ∈ members → ∃ value, read (some written) = some value) :
    ∃ value, FieldReads members name read value := by
  rcases hfilter : members.filter fun m => m.1 = name with _ | ⟨⟨name', written⟩, _ | ⟨_, _⟩⟩
  · obtain ⟨value, hvalue⟩ := hmissing
    exact ⟨value, none, by unfold typedField; rw [hfilter], hvalue⟩
  · have hmem : (name', written) ∈ members.filter fun m => m.1 = name := hfilter ▸ (by simp)
    obtain ⟨hmem, hname⟩ := List.mem_filter.1 hmem
    have hname : name' = name := by simpa using hname
    obtain ⟨value, hvalue⟩ := hread written (hname ▸ hmem)
    exact ⟨value, some written, by unfold typedField; rw [hfilter], hvalue⟩
  · rw [hfilter] at honce
    simp at honce

theorem FieldReads.once {α : Type} {members : List (String × Json)} {name : String}
    {read : Option Json → Option α} {value : α}
    (h : FieldReads members name read value) :
    (members.filter fun m => m.1 = name).length ≤ 1 := by
  obtain ⟨found, hfound, -⟩ := h
  unfold typedField at hfound
  split at hfound
  · rename_i hfilter
    simp [hfilter]
  · rename_i hfilter
    simp [hfilter]
  · cases hfound

theorem FieldReads.of_mem {α : Type} {members : List (String × Json)} {name : String}
    {read : Option Json → Option α} {value : α} (h : FieldReads members name read value)
    {written : Json} (hmem : (name, written) ∈ members) :
    read (some written) = some value
      ∧ members.filter (fun m => m.1 = name) = [(name, written)] := by
  obtain ⟨found, hfound, hread⟩ := h
  obtain ⟨rfl, honly⟩ := filter_of_typedField hfound hmem
  exact ⟨hread, honly⟩

theorem notMem_typed_of_collectExtra {name : String} : ∀ {members : List (String × Json)},
    name ∈ collectExtra members → name ∉ TYPED_FIELDS
  | [], h => absurd h (AList.notMem_empty _)
  | m :: members, h => by
    rw [collectExtra] at h
    split_ifs at h with hm
    · exact notMem_typed_of_collectExtra h
    · rcases (AList.mem_insert _).1 h with rfl | h
      · exact fun htyped => hm (.inl htyped)
      · exact notMem_typed_of_collectExtra h

/-! ## The round trip -/

/-- Writing and reading give the claims back, with `exp` and `iat` in whole seconds, exactly when
the map has no typed name. -/
theorem round_trip_iff (claims : StandardClaims) :
    (serialize claims).bind deserialize = some claims.truncSecs
      ↔ ∀ name ∈ claims.extra, name ∉ TYPED_FIELDS := by
  have hwritten : (serialize claims).bind deserialize
      = (deserialize (.obj claims.members) : Option StandardClaims) := rfl
  rw [hwritten]
  refine ⟨fun h name hname => ?_, deserialize_members⟩
  have hextra : claims.extra = collectExtra claims.members := (readsAs_of_deserialize h).extra
  exact notMem_typed_of_collectExtra (hextra ▸ hname)

/-- Claims that set nothing, with a subject in the map. -/
def mappedSub : StandardClaims :=
  { default with extra := AList.insert "sub" (.str "someone") ∅ }

/-- They are read as claims with a subject and nothing in the map. -/
theorem mapped_sub_becomes_field :
    (serialize mappedSub).bind deserialize = some { default with sub := some "someone" }
      ∧ (serialize mappedSub).bind deserialize ≠ some mappedSub.truncSecs := by
  have hread : (serialize mappedSub).bind deserialize
      = some { default with sub := some "someone" } := rfl
  refine ⟨hread, fun h => ?_⟩
  rw [hread] at h
  have hsub : some "someone" = mappedSub.truncSecs.sub :=
    congrArg StandardClaims.sub (Option.some.inj h)
  cases hsub

end StandardClaims

end TokenKit
