import TokenKit.Extractors
import Mathlib.Tactic.Common

/-!
# Headers read and written

A bearer token is found exactly where the header is the scheme, white space, a token, and white
space (`extractBearerToken_eq_some_iff`).

Splitting a cookie header at its semicolons undoes the writing of it, as the fields the writer adds
itself hold none (`splitOn_buildAuthCookie`). What a semicolon in the name or the value splits off
is read as one more attribute, in front of the writer's own (`attributes_buildAuthCookie`). The
cookie comes back as it was handed over exactly when its name and value hold no separators and no
blanks at their ends (`readCookie_buildAuthCookie_iff`).
-/

namespace TokenKit

open Fields

/-! ## Bearer tokens -/

theorem extractBearerToken_eq_some_iff (authorization token : String) :
    extractBearerToken authorization = some token ↔
      token ≠ "" ∧ Trimmed isWhitespace token.toList ∧
        ∃ front back, (∀ c ∈ front, isWhitespace c) ∧ (∀ c ∈ back, isWhitespace c) ∧
          authorization.toList = "Bearer ".toList ++ front ++ token.toList ++ back := by
  unfold extractBearerToken
  simp only [Option.filter_eq_some_iff, Option.map_eq_some_iff, List.dropPrefix?_eq_some_iff,
    beq_iff_eq]
  constructor
  · rintro ⟨⟨t, ⟨scheme, hheader, rfl⟩, rfl⟩, hne⟩
    obtain ⟨htrimmed, front, back, hfront, hback, ht⟩ :=
      trim_eq_iff.1 (Eq.refl (trim isWhitespace t))
    refine ⟨by simpa using hne, by simpa using htrimmed, front, back, hfront, hback, ?_⟩
    rw [hheader, String.toList_ofList]
    conv_lhs => rw [ht]
    simp
  · rintro ⟨hne, htrimmed, front, back, hfront, hback, hheader⟩
    have ht := trim_eq_iff.2 ⟨htrimmed, front, back, hfront, hback, rfl⟩
    refine ⟨⟨front ++ token.toList ++ back, ⟨_, by simpa using hheader, rfl⟩, ?_⟩, ?_⟩
    · rw [ht, String.ofList_toList]
    · simpa using hne

/-! ## Cookies -/

section Cookies

variable {name value : String} {maxAgeSecs : ℤ} {secure : Bool}

/-- The fields that `build_auth_cookie` writes behind the name and the value. -/
def ownFields (maxAgeSecs : ℤ) (secure : Bool) : List (List Char) :=
  [" Max-Age=".toList ++ (toString maxAgeSecs).toList, " Path=/".toList, " HttpOnly".toList,
    " SameSite=Strict".toList] ++ if secure then [" Secure".toList] else []

theorem eq_or_isDigit_of_mem_toString {c : Char} :
    ∀ {n : ℤ}, c ∈ (toString n).toList → c = '-' ∨ c.isDigit
  | .ofNat n, h => by
    replace h : c ∈ (toString n).toList := h
    rw [Nat.toString_eq_repr, Nat.toList_repr] at h
    exact .inr (Nat.isDigit_of_mem_toDigits (by omega) (by omega) h)
  | .negSucc n, h => by
    replace h : c ∈ ("-" ++ toString (n + 1)).toList := h
    rw [String.toList_append, Nat.toString_eq_repr, Nat.toList_repr] at h
    rcases List.mem_append.1 h with h | h
    · exact .inl (by simpa using h)
    · exact .inr (Nat.isDigit_of_mem_toDigits (by omega) (by omega) h)

/-- A number is written without separators and blanks. -/
theorem toString_clean {c : Char} {n : ℤ} (h : c ∈ (toString n).toList) :
    c ≠ ';' ∧ c ≠ '=' ∧ isBlank c = false := by
  rcases eq_or_isDigit_of_mem_toString h with rfl | hc
  · decide
  · have hne : ∀ d : Char, d.isDigit = false → c ≠ d := by
      intro d hd heq
      simp [heq, hd] at hc
    have hspace := hne ' ' (by decide)
    have htab := hne '\t' (by decide)
    exact ⟨hne ';' (by decide), hne '=' (by decide), by simp [isBlank, hspace, htab]⟩

theorem splitOn_buildAuthCookie (name value : String) (maxAgeSecs : ℤ) (secure : Bool) :
    (buildAuthCookie name value maxAgeSecs secure).toList.splitOn ';'
      = (name.toList ++ '=' :: value.toList).splitOn ';' ++ ownFields maxAgeSecs secure := by
  have hage : ';' ∉ " Max-Age=".toList ++ (toString maxAgeSecs).toList := by
    intro h
    rcases List.mem_append.1 h with h | h
    · simp at h
    · exact (toString_clean h).1 rfl
  have hclean : ∀ field ∈ ownFields maxAgeSecs secure, ';' ∉ field := by
    unfold ownFields
    rcases secure <;> simpa using hage
  have hwritten : (buildAuthCookie name value maxAgeSecs secure).toList
      = (name.toList ++ '=' :: value.toList)
        ++ ';' :: [';'].intercalate (ownFields maxAgeSecs secure) := by
    have hself : ∀ s : String, toString s = s := fun _ => rfl
    have heq : "=".toList = ['='] := rfl
    have hage : "; Max-Age=".toList = ';' :: " Max-Age=".toList := rfl
    have hflags : "; Path=/; HttpOnly; SameSite=Strict".toList
        = ';' :: (" Path=/".toList ++ ';' :: (" HttpOnly".toList ++ ';' ::
          " SameSite=Strict".toList)) := rfl
    have hsecure : "; Secure".toList = ';' :: " Secure".toList := rfl
    unfold buildAuthCookie ownFields
    rcases secure
    all_goals simp only [hself, heq, hage, hflags, hsecure, String.toList_append, if_true,
      Bool.false_eq_true, if_false, List.append_nil, List.append_assoc, List.cons_append,
      List.nil_append, List.intercalate_cons_cons, List.intercalate_singleton]
  have hne : ownFields maxAgeSecs secure ≠ [] :=
    List.append_ne_nil_of_left_ne_nil (List.cons_ne_nil _ _) _
  rw [hwritten, List.splitOn_append_cons_self, List.splitOn_intercalate ';' hclean hne]

theorem map_readField_ownFields (maxAgeSecs : ℤ) (secure : Bool) :
    (ownFields maxAgeSecs secure).map readField = authAttributes maxAgeSecs secure := by
  have hage : readField (" Max-Age=".toList ++ (toString maxAgeSecs).toList)
      = ("Max-Age", toString maxAgeSecs) := by
    have hcut : cut '=' (" Max-Age".toList ++ '=' :: (toString maxAgeSecs).toList)
        = (" Max-Age".toList, (toString maxAgeSecs).toList) := cut_append_cons (by decide) _
    have htrim : trim isBlank (toString maxAgeSecs).toList = (toString maxAgeSecs).toList :=
      trimmed_of_forall_not fun c hc => by simp [(toString_clean hc).2.2]
    have hsplit : " Max-Age=".toList ++ (toString maxAgeSecs).toList
        = " Max-Age".toList ++ '=' :: (toString maxAgeSecs).toList := by simp
    unfold readField
    rw [hsplit, hcut, htrim, String.ofList_toList]
    rfl
  unfold ownFields authAttributes
  rw [List.map_append, List.map_cons, hage]
  rcases secure <;> rfl

/-- What a user agent makes of a cookie header, by the fields of the name and the value. -/
theorem readCookie_buildAuthCookie (name value : String) (maxAgeSecs : ℤ) (secure : Bool) :
    ∃ pair more, (name.toList ++ '=' :: value.toList).splitOn ';' = pair :: more ∧
      readCookie (buildAuthCookie name value maxAgeSecs secure)
        = if '=' ∈ pair ∧ (readField pair).1 ≠ "" then
            some ⟨(readField pair).1, (readField pair).2,
              more.map readField ++ authAttributes maxAgeSecs secure⟩
          else none := by
  obtain ⟨pair, more, hsplit⟩ := List.exists_cons_of_ne_nil
    (List.splitOn_ne_nil ';' (name.toList ++ '=' :: value.toList))
  refine ⟨pair, more, hsplit, ?_⟩
  unfold readCookie
  rw [splitOn_buildAuthCookie, hsplit, List.cons_append]
  simp only [List.map_append, map_readField_ownFields]

/-- Whatever the name and the value are, the attributes written come last, behind one for each
semicolon of theirs. -/
theorem attributes_buildAuthCookie {cookie : Cookie}
    (h : readCookie (buildAuthCookie name value maxAgeSecs secure) = some cookie) :
    ∃ front, cookie.attributes = front ++ authAttributes maxAgeSecs secure ∧
      front.length = name.toList.count ';' + value.toList.count ';' := by
  obtain ⟨pair, more, hsplit, hread⟩ := readCookie_buildAuthCookie name value maxAgeSecs secure
  rw [hread] at h
  split_ifs at h
  have hlen := length_splitOn ';' (name.toList ++ '=' :: value.toList)
  rw [hsplit] at hlen
  refine ⟨more.map readField, ?_, ?_⟩
  · rw [← Option.some.inj h]
  · simp at hlen
    simp only [List.length_map]
    omega

/-- What a name and a value keep clear of to be read as they are. -/
structure CookieSafe (name value : String) : Prop where
  name_ne : name ≠ ""
  name_trimmed : Trimmed isBlank name.toList
  value_trimmed : Trimmed isBlank value.toList
  name_no_eq : '=' ∉ name.toList
  name_no_semi : ';' ∉ name.toList
  value_no_semi : ';' ∉ value.toList

/-- Without semicolons the name and the value are one field. -/
theorem readCookie_buildAuthCookie_of_no_semi (hname : ';' ∉ name.toList)
    (hvalue : ';' ∉ value.toList) :
    readCookie (buildAuthCookie name value maxAgeSecs secure)
      = if (readField (name.toList ++ '=' :: value.toList)).1 ≠ "" then
          some ⟨(readField (name.toList ++ '=' :: value.toList)).1,
            (readField (name.toList ++ '=' :: value.toList)).2, authAttributes maxAgeSecs secure⟩
        else none := by
  obtain ⟨pair, more, hsplit, hread⟩ := readCookie_buildAuthCookie name value maxAgeSecs secure
  have hone : (name.toList ++ '=' :: value.toList).splitOn ';'
      = [name.toList ++ '=' :: value.toList] :=
    List.splitOn_eq_singleton (by simp [hname, hvalue])
  obtain ⟨rfl, rfl⟩ := List.cons.inj (hsplit.symm.trans hone)
  rw [hread]
  simp

theorem readField_eq_iff {field : List Char} : readField field = (name, value) ↔
    trim isBlank (cut '=' field).1 = name.toList
      ∧ trim isBlank (cut '=' field).2 = value.toList := by
  unfold readField
  rw [Prod.mk.injEq, ← String.toList_inj, ← String.toList_inj, String.toList_ofList,
    String.toList_ofList]

theorem readCookie_buildAuthCookie_iff (name value : String) (maxAgeSecs : ℤ) (secure : Bool) :
    readCookie (buildAuthCookie name value maxAgeSecs secure)
        = some ⟨name, value, authAttributes maxAgeSecs secure⟩
      ↔ CookieSafe name value := by
  constructor
  · intro h
    obtain ⟨front, hattributes, hlen⟩ := attributes_buildAuthCookie h
    have hfront : front = [] := List.self_eq_append_left.1 hattributes
    rw [hfront, List.length_nil] at hlen
    have hsemi : ';' ∉ name.toList := List.count_eq_zero.1 (by omega)
    have hsemi' : ';' ∉ value.toList := List.count_eq_zero.1 (by omega)
    rw [readCookie_buildAuthCookie_of_no_semi hsemi hsemi'] at h
    split_ifs at h with hne
    obtain ⟨hname, hvalue, -⟩ := Cookie.mk.inj (Option.some.inj h)
    obtain ⟨hname', hvalue'⟩ := readField_eq_iff.1 (Prod.ext hname hvalue)
    have heq : '=' ∉ name.toList := fun hmem =>
      notMem_cut _ _ (mem_of_mem_trim (hname'.symm ▸ hmem))
    rw [cut_append_cons heq] at hname' hvalue'
    exact ⟨hname ▸ hne, hname', hvalue', heq, hsemi, hsemi'⟩
  · rintro ⟨hne, hname, hvalue, heq, hsemi, hsemi'⟩
    have hread : readField (name.toList ++ '=' :: value.toList) = (name, value) := by
      rw [readField_eq_iff, cut_append_cons heq]
      exact ⟨hname, hvalue⟩
    rw [readCookie_buildAuthCookie_of_no_semi hsemi hsemi', hread, if_pos hne]

end Cookies

end TokenKit
