import Signari.LdapConnection
import Signari.TextCuts

/-!
# The names of entries

`dnFor` writes the DN of an account by plain concatenation; `usernameFromDN` takes a DN
apart at the first comma and the first equals sign, trims both sides and does not decode
escapes, so that no DN comes to name another account than its bytes say.

A name without a comma and without white space around it comes back from its DN, and those
are the names an Add can store. A name with a comma can be stored by a rename; its DN is
refused, whatever it says.
-/
namespace Signari.LdapNames
open GoStrings TextCuts LdapSchema LdapAccounts LdapSearch LdapConnection List

/-- A name that a DN can carry as it is. -/
structure Plain (name : String) : Prop where
  ne : name ≠ ""
  comma : ',' ∉ name.toList
  tight : trimSpace name = name

/-- A naming attribute and a base without white space around them, and neither a comma nor an
equals sign in the attribute. -/
structure Ordinary (l : Listener) : Prop where
  attr_comma : ',' ∉ l.userAttr.toList
  attr_equals : '=' ∉ l.userAttr.toList
  attr_tight : trimSpace l.userAttr = l.userAttr
  base_tight : trimSpace l.baseDN = l.baseDN

theorem trimmed_ends {s : String} (hs : trimSpace s = s) :
    (∀ c ∈ s.toList.head?, isSpace c = false) ∧ ∀ c ∈ s.toList.getLast?, isSpace c = false := by
  have hchars : trimChars s.toList = s.toList := by
    have h := congrArg String.toList hs
    simpa [trimSpace] using h
  have hlen : (trimChars s.toList).length ≤ (trimLeft s.toList).length := by
    rw [trimChars, length_reverse]
    exact (length_dropWhile_le _ _).trans_eq length_reverse
  have hleft : trimLeft s.toList = s.toList :=
    (dropWhile_suffix _).eq_of_length_le (by rwa [hchars] at hlen)
  have hright : trimLeft s.toList.reverse = s.toList.reverse := by
    rw [trimChars, hleft] at hchars
    rw [← reverse_inj, hchars, reverse_reverse]
  have hhead : ∀ {cs : List Char}, trimLeft cs = cs → ∀ c ∈ cs.head?, isSpace c = false := by
    intro cs hcs c hc
    have h := head?_dropWhile_not isSpace cs
    rw [← trimLeft, hcs, hc] at h
    simpa using h
  exact ⟨hhead hleft, by simpa using hhead hright⟩

section
variable {l : Listener}

theorem dnFor_toList (l : Listener) (name : String) : (dnFor l name).toList =
    l.userAttr.toList ++ '=' :: (name.toList ++ ',' :: l.baseDN.toList) := by
  simp [dnFor]

theorem dnFor_tight (hl : Ordinary l) (name : String) :
    trimSpace (dnFor l name) = dnFor l name := by
  have hbase := trimmed_ends hl.base_tight
  have hattr := trimmed_ends hl.attr_tight
  obtain ⟨init, c, hc⟩ : ∃ init c, l.baseDN.toList = init ++ [c] := by
    cases h : l.baseDN.toList using List.reverseRecOn with
    | nil => exact absurd (String.toList_eq_nil_iff.mp h) l.baseDN_ne
    | append_singleton init c => exact ⟨init, c, rfl⟩
  have hchars : trimChars (dnFor l name).toList = (dnFor l name).toList := by
    rw [dnFor_toList]
    refine trimChars_append ?_ ?_ ?_ []
    · simp
    · cases ha : l.userAttr.toList with
      | nil => simp; decide
      | cons a as =>
        rw [ha] at hattr
        simpa using hattr.1
    · rw [hc] at hbase ⊢
      simpa [getLast?_append, getLast?_cons] using hbase.2
  rw [trimSpace, hchars, String.ofList_toList]

theorem asciiEqual_self (s : String) : asciiEqual s s = true := by
  simp [asciiEqual]

theorem asciiEqual_length {s t : String} (h : asciiEqual s t = true) :
    s.toList.length = t.toList.length := by
  have h := congrArg List.length (beq_iff_eq.mp h)
  simpa using h

theorem usernameFromDN_plain (hl : Ordinary l) {name : String} (hname : Plain name) :
    usernameFromDN l (dnFor l name) = .ok name := by
  have hcut : cutRDN (dnFor l name).toList =
      (l.userAttr.toList ++ '=' :: name.toList, l.baseDN.toList) := by
    have hcomma : ',' ∉ l.userAttr.toList ++ '=' :: name.toList := by
      simp [hl.attr_comma, hname.comma]
    have h := cutFirst_append hcomma l.baseDN.toList
    rw [List.append_assoc, cons_append] at h
    rw [cutRDN, dnFor_toList, h]
    rfl
  have hne : dnFor l name ≠ "" := by
    intro h
    have h := congrArg String.toList h
    simp [dnFor_toList] at h
  unfold usernameFromDN
  simp only [dnFor_tight hl, hne, if_false, hcut, cutFirst_append hl.attr_equals,
    String.ofList_toList, hl.attr_tight, hl.base_tight, hname.tight, asciiEqual_self, hname.ne,
    Bool.true_eq_false]

theorem comma_not_mem_cutRDN (cs : List Char) : ',' ∉ (cutRDN cs).1 := by
  unfold cutRDN
  cases h : cutFirst cs ',' with
  | none =>
    intro hmem
    obtain ⟨before, after, hcs, hbefore⟩ := eq_append_cons_of_mem hmem
    simp only [Option.getD_none] at hcs
    rw [hcs, cutFirst_append hbefore] at h
    cases h
  | some r => exact (mem_of_cutFirst h).1

theorem plain_of_usernameFromDN {dn name : String} (h : usernameFromDN l dn = .ok name) :
    Plain name := by
  unfold usernameFromDN at h
  cases hcut : cutFirst (cutRDN (trimSpace dn).toList).1 '=' with
  | none =>
    simp only [hcut] at h
    split_ifs at h
  | some r =>
    simp only [hcut] at h
    split_ifs at h with hempty hattr hnil hbase
    obtain rfl := Except.ok.inj h
    refine ⟨hnil, ?_, trimSpace_trimSpace _⟩
    intro hcomma
    have hfirst := comma_not_mem_cutRDN (trimSpace dn).toList
    rw [(mem_of_cutFirst hcut).2] at hfirst
    rw [trimSpace, String.toList_ofList, String.toList_ofList] at hcomma
    exact hfirst (by simp [mem_of_mem_trimChars hcomma])

theorem usernameFromDN_comma (hl : Ordinary l) {name : String} (hname : ',' ∈ name.toList) :
    ∃ e, usernameFromDN l (dnFor l name) = .error e := by
  obtain ⟨before, after, hsplit, hbefore⟩ := eq_append_cons_of_mem hname
  have hcut : cutRDN (dnFor l name).toList =
      (l.userAttr.toList ++ '=' :: before, after ++ ',' :: l.baseDN.toList) := by
    have hcomma : ',' ∉ l.userAttr.toList ++ '=' :: before := by
      simp [hl.attr_comma, hbefore]
    have h := cutFirst_append hcomma (after ++ ',' :: l.baseDN.toList)
    rw [List.append_assoc, cons_append] at h
    rw [cutRDN, dnFor_toList, hsplit, List.append_assoc, cons_append, h]
    rfl
  have hrest : asciiEqual (trimSpace (String.ofList (after ++ ',' :: l.baseDN.toList)))
      l.baseDN = false := by
    have hlast := (trimmed_ends hl.base_tight).2
    have htrim : trimChars (after ++ ',' :: l.baseDN.toList) =
        trimLeft after ++ ',' :: l.baseDN.toList := by
      refine trimChars_append (by simp) (by simp; decide) ?_ after
      intro c hc
      rw [getLast?_cons] at hc
      cases hb : l.baseDN.toList.getLast? with
      | none =>
        have hempty := String.toList_eq_nil_iff.mp (getLast?_eq_none_iff.mp hb)
        exact absurd hempty l.baseDN_ne
      | some b =>
        rw [hb] at hc hlast
        exact hlast c hc
    rw [Bool.eq_false_iff]
    intro h
    have hlen := asciiEqual_length h
    rw [trimSpace, String.toList_ofList, String.toList_ofList, htrim, length_append,
      length_cons] at hlen
    omega
  unfold usernameFromDN
  simp only [dnFor_tight hl, hcut, cutFirst_append hl.attr_equals, String.ofList_toList,
    hl.attr_tight, asciiEqual_self, hrest, Bool.true_eq_false, if_false, if_true]
  split_ifs
  · exact ⟨_, rfl⟩
  · exact ⟨_, rfl⟩
  · exact ⟨_, rfl⟩

/-- Names without a comma and without white space around them come back from their DNs; the
names an Add can store are of this kind; and the DN of a name with a comma is refused. -/
theorem names_round_trip (hl : Ordinary l) :
    (∀ name, Plain name → usernameFromDN l (dnFor l name) = .ok name) ∧
    (∀ dn name, usernameFromDN l dn = .ok name → Plain name) ∧
    ∀ name, ',' ∈ name.toList → ∃ e, usernameFromDN l (dnFor l name) = .error e :=
  ⟨fun _ hname => usernameFromDN_plain hl hname, fun _ _ h => plain_of_usernameFromDN h,
    fun _ hname => usernameFromDN_comma hl hname⟩

end

theorem exampleListener_ordinary : Ordinary exampleListener where
  attr_comma := by decide
  attr_equals := by decide
  attr_tight := by decide
  base_tight := by decide

theorem names_round_trip_bob :
    usernameFromDN exampleListener (dnFor exampleListener "bob=r") = .ok "bob=r" :=
  (names_round_trip exampleListener_ordinary).1 "bob=r" ⟨by decide, by decide, by decide⟩

/-- A rename can store `Smith, John`, and the DN of that entry is not under the base. -/
theorem comma_name_lost : newName exampleListener "uid=Smith, John" = .ok "Smith, John" ∧
    usernameFromDN exampleListener (dnFor exampleListener "Smith, John") =
      .error "DN is not under dc=example,dc=com" :=
  ⟨by decide, by decide⟩

end Signari.LdapNames
