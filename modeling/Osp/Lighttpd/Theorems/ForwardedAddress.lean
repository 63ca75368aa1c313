import Osp.Lighttpd.Lemmas.Extforward

/-!
# The address of the client

A proxy appends a list of elements to what its client sent. The address that is chosen is the last one of the list that is not trusted,
whatever is before the list. `Forwarded` has two exceptions: more parameters and commas than `offsets` has room for, and an identifier after
the address that is neither trusted nor an address.
-/

namespace Osp.Lighttpd

open Osp.Lib List

variable {Addr : Type} {p : ForwardConf Addr} {addr sent list : Bytes} {before after : List Bytes}

/-! ## X-Forwarded-For -/

theorem extractLoop_append_comma (base : Option Bytes) (l l' : Bytes) :
    extractLoop base (l ++ 44 :: l') = extractLoop base l ++ extractLoop none l' := by
  induction l generalizing base with
  | nil => cases base <;> rfl
  | cons c l ih =>
    cases base with
    | none =>
      simp only [cons_append, extractLoop]
      split <;> exact ih _
    | some base =>
      simp only [cons_append, extractLoop]
      split
      · exact ih _
      · rw [ih, cons_append]

theorem extractLoop_addr {l : Bytes} (h : ∀ c ∈ l, isAddrByte c = true) (base rest : Bytes) :
    extractLoop (some base) (l ++ rest) = extractLoop (some (base ++ l)) rest := by
  induction l generalizing base with
  | nil => rw [nil_append, append_nil]
  | cons c l ih =>
    obtain ⟨hc, hl⟩ := forall_mem_cons.1 h
    rw [cons_append, extractLoop, if_pos hc, ih hl, append_assoc, singleton_append]

theorem extractLoop_blanks {blanks : Bytes} (h : Blanks blanks) (rest : Bytes) : extractLoop none (blanks ++ rest) = extractLoop none rest := by
  induction blanks with
  | nil => rfl
  | cons c blanks ih =>
    obtain ⟨hc, hblanks⟩ := forall_mem_cons.1 h
    have hleading : isLeading c = false := by
      unfold isBlank at hc
      grind [isLeading]
    rw [cons_append, extractLoop, if_neg (by simp [hleading]), ih hblanks]

/-- An address with blanks around it. -/
theorem extractLoop_element {front back : Bytes} (hfront : Blanks front) (haddr : AddrText addr) (hback : Blanks back) :
    extractLoop none (front ++ addr ++ back) = [addr] := by
  obtain ⟨⟨c, rest, rfl, hc⟩, hall⟩ := haddr
  rw [append_assoc, extractLoop_blanks hfront, cons_append, extractLoop, if_pos hc,
    extractLoop_addr fun d hd => hall d (mem_cons_of_mem c hd), singleton_append]
  cases back with
  | nil => rfl
  | cons d back =>
    obtain ⟨hd, hback⟩ := forall_mem_cons.1 hback
    have hnot : isAddrByte d = false := by
      unfold isBlank at hd
      grind [isAddrByte]
    have hnil := extractLoop_blanks hback []
    rw [append_nil] at hnil
    rw [extractLoop, if_neg (by simp [hnot]), hnil]
    rfl

theorem AddrList.extractLoop {addrs : List Bytes} (h : AddrList list addrs) : Lighttpd.extractLoop none list = addrs := by
  induction h with
  | last hfront haddr hback => exact extractLoop_element hfront haddr hback
  | cons hfront haddr hback _ ih =>
    rw [extractLoop_append_comma, extractLoop_element hfront haddr hback, ih]
    rfl

theorem AddrList.notMem {addrs : List Bytes} (h : AddrList list addrs) : 0 ∉ list := by
  have hblank {l : Bytes} (hl : Blanks l) : 0 ∉ l := fun h0 => absurd (hl 0 h0) (by decide)
  have haddr {l : Bytes} (hl : AddrText l) : 0 ∉ l := fun h0 => absurd (hl.2 0 h0) (by decide)
  induction h with
  | last hfront htext hback => simp [hblank hfront, haddr htext, hblank hback]
  | cons hfront htext hback _ ih => simp [hblank hfront, haddr htext, hblank hback, ih]

theorem find_last {α : Type} {q : α → Bool} {front back : List α} {a : α} (ha : q a = true) (hback : ∀ b ∈ back, q b = false) :
    (front ++ a :: back).reverse.find? q = some a := by
  have hnone : back.reverse.find? q = none := List.find?_eq_none.2 fun b hb => by simp [hback b (mem_reverse.1 hb)]
  rw [reverse_append, reverse_cons, append_assoc, List.find?_append, hnone, Option.none_or]
  simp [ha]

/-- The last address of a list that is not trusted is chosen. -/
theorem xForwardedFor_append (hnul : 0 ∉ sent) (hlist : AddrList list (before ++ addr :: after)) (hnumeric : p.isNumeric addr = true)
    (haddr : isProxyTrusted p addr = false) (hafter : ∀ ip ∈ after, isProxyTrusted p ip = true) :
    xForwardedFor p (sent ++ 44 :: list) = some addr := by
  have htext : cString (sent ++ 44 :: list) = sent ++ 44 :: list := by
    have hall : ∀ c ∈ sent ++ 44 :: list, c ≠ 0 := by
      rintro c hc rfl
      simp [hnul, hlist.notMem] at hc
    exact takeWhile_eq_self_iff.2 fun c hc => by simpa using hall c hc
  have hlast : lastNotInArray p (extractForwardArray (sent ++ 44 :: list)) = some addr := by
    rw [lastNotInArray, extractForwardArray, htext, extractLoop_append_comma, hlist.extractLoop, ← append_assoc]
    exact find_last (by simp [haddr]) fun ip hip => by simp [hafter ip hip]
  simp [xForwardedFor, hlast, setAddr, hnumeric]

/-! ## Forwarded -/

/-- The array has room for the parameters and the commas of the text: a parameter takes four numbers and a comma takes one. -/
def Fits (text : Bytes) : Prop := ∃ found, Scans 0 text found ∧ usedOffsets found ≤ 252

theorem forwardedAddress_of_scans {text : Bytes} {found : List Offset} (hnul : 0 ∉ text) (h : Scans 0 text found) :
    (usedOffsets found ≤ 252 →
      forwardedAddress p text = (selectFor p text false found.reverse none).map (Option.bind · (setAddr p))) ∧
    (252 < usedOffsets found → ∀ result, forwardedAddress p text ≠ .ok result) := by
  have htext : cString text = text := takeWhile_eq_self_iff.2 fun c hc => by simpa using fun h : c = 0 => hnul (h ▸ hc)
  have hscanned := h.scanned le_rfl []
  rw [ScannedParams, usedOffsets_nil, Nat.zero_add, nil_append] at hscanned
  unfold forwardedAddress
  rw [htext]
  refine ⟨fun hle => ?_, fun hlt result => ?_⟩
  · rw [if_pos hle] at hscanned
    simp only [hscanned]
    rw [if_neg (by omega)]
  · rw [if_neg (by omega)] at hscanned
    cases hresult : scanParams (text.length + 1) 0 text [] with
    | error fault =>
      simp only [hresult]
      rintro ⟨⟩
    | ok all =>
      simp only [hresult]
      rw [if_pos (hscanned all hresult)]
      rintro ⟨⟩

section

variable {idents : List Bytes} {ident : Bytes} {ofor : Option Bytes} {next : Option Bytes → Except ForwardedFault (Option Bytes)}

/-- Trusted identifiers are passed over, and the last one of them that is an address is kept. -/
theorem walk_trusted (h : ∀ ident ∈ idents, isProxyTrusted p ident = true) (more : List Bytes) (ofor : Option Bytes) :
    ∃ kept, walk p (idents ++ more) ofor next = walk p more kept next ∧ (kept = ofor ∨ ∃ ident ∈ idents, kept = some ident) := by
  induction idents generalizing ofor with
  | nil => exact ⟨ofor, rfl, .inl rfl⟩
  | cons ident idents ih =>
    obtain ⟨hident, hidents⟩ := forall_mem_cons.1 h
    obtain ⟨kept, hwalk, hkept⟩ := ih hidents (keepAddr ident ofor)
    refine ⟨kept, by rw [cons_append, walk, if_pos hident, hwalk], ?_⟩
    obtain rfl | ⟨ident', hmem, rfl⟩ := hkept
    · unfold keepAddr
      split
      · exact .inl rfl
      · exact .inr ⟨ident, mem_cons_self, rfl⟩
    · exact .inr ⟨ident', mem_cons_of_mem _ hmem, rfl⟩

theorem walk_untrusted (h : isProxyTrusted p ident = false) : walk p (ident :: idents) ofor next = .ok (keepAddr ident ofor) := by
  rw [walk, if_neg (by simp [h])]

end

theorem not_isObfuscated (h : ∃ c rest, addr = c :: rest ∧ isLeading c = true) : isObfuscated addr = false := by
  obtain ⟨c, rest, rfl, hc⟩ := h
  obtain ⟨-, hunder, hslash, hu⟩ := ne_of_isLeading hc
  have hunknown : c :: rest ≠ textBytes "unknown" := fun h => hu (List.cons.inj h).1
  simp [isObfuscated, hunder, hslash, hunknown]

section

variable (hnumeric : ∀ addr, p.isNumeric addr = true → ∃ c rest, addr = c :: rest ∧ isLeading c = true)
  {next : Option Bytes → Except ForwardedFault (Option Bytes)} (hisNumeric : p.isNumeric addr = true)
  (haddr : isProxyTrusted p addr = false)

include hnumeric hisNumeric haddr

/-- If all identifiers after the address are trusted, it is chosen. -/
theorem walk_of_trusted (hafter : ∀ ident ∈ after, isProxyTrusted p ident = true) :
    (walk p (before ++ addr :: after).reverse none next).map (Option.bind · (setAddr p)) = .ok (some addr) := by
  have htrusted : ∀ ident ∈ after.reverse, isProxyTrusted p ident = true := fun ident h => hafter ident (mem_reverse.1 h)
  obtain ⟨kept, hwalk, -⟩ := @walk_trusted _ p _ next htrusted (addr :: before.reverse) none
  rw [reverse_append, reverse_cons, append_assoc, singleton_append, hwalk, walk_untrusted haddr, keepAddr,
    not_isObfuscated (hnumeric addr hisNumeric)]
  simp [Except.map, setAddr, hisNumeric]

omit hnumeric hisNumeric in
/-- If an identifier after the address is neither trusted nor an address, the address is not chosen. -/
theorem walk_of_untrusted (hright : ∀ ident ∈ after, p.isNumeric ident = true → isProxyTrusted p ident = true)
    (hafter : ¬ ∀ ident ∈ after, isProxyTrusted p ident = true) :
    (walk p (before ++ addr :: after).reverse none next).map (Option.bind · (setAddr p)) ≠ .ok (some addr) := by
  obtain ⟨trusted, ident, rest, hreverse, htrusted, hident⟩ :=
    exists_first (fun ident => !isProxyTrusted p ident) (l := after.reverse) (by simpa using hafter)
  replace htrusted : ∀ ident ∈ trusted, isProxyTrusted p ident = true := fun ident h => by simpa using htrusted ident h
  obtain ⟨kept, hwalk, hkept⟩ := @walk_trusted _ p _ next htrusted (ident :: rest ++ addr :: before.reverse) none
  have hmem : ident ∈ after := by
    rw [← mem_reverse, hreverse]
    simp
  have hnot : isProxyTrusted p ident = false := by simpa using hident
  have hother : p.isNumeric ident = false := by
    by_contra h
    rw [hright ident hmem (by simpa using h)] at hnot
    exact Bool.noConfusion hnot
  rw [reverse_append, reverse_cons, append_assoc, singleton_append, hreverse, append_assoc, hwalk,
    cons_append, walk_untrusted hnot, keepAddr]
  split
  · -- the address is a trusted one further right, if there is any
    obtain rfl | ⟨ident', hident', rfl⟩ := hkept
    · exact nofun
    · have htrusted' := htrusted ident' hident'
      simp only [Except.map, Option.bind_some, setAddr]
      split
      · rintro ⟨⟩
        rw [haddr] at htrusted'
        exact Bool.noConfusion htrusted'
      · exact nofun
  · simp [Except.map, setAddr, hother]

/-- The last address of a list that is not trusted is chosen, if the array has room and everything after the address is trusted. -/
theorem forwardedAddress_append (hsent : Balanced sent) (hnul : 0 ∉ sent) (hlist : ForwardedElements list (before ++ addr :: after))
    (hnul' : 0 ∉ list) (hright : ∀ ident ∈ after, p.isNumeric ident = true → isProxyTrusted p ident = true) :
    forwardedAddress p (sent ++ 44 :: list) = .ok (some addr) ↔
      Fits (sent ++ 44 :: list) ∧ ∀ ident ∈ after, isProxyTrusted p ident = true := by
  obtain ⟨found, hfound⟩ := Scans.exists hsent 0
  obtain ⟨found', hfound', hselect⟩ := hlist.scans (p := p) (s := sent ++ 44 :: list) (i := sent.length + 1) (by simp)
  have hscans := hfound.append_comma hfound' (by omega)
  obtain ⟨hfits, hfull⟩ := forwardedAddress_of_scans (p := p) (by simp [hnul, hnul']) hscans
  by_cases hle : usedOffsets (found ++ .separator :: found') ≤ 252
  · rw [hfits hle, reverse_append, reverse_cons, append_assoc, singleton_append, hselect]
    refine ⟨fun h => ⟨⟨_, hscans, hle⟩, ?_⟩, fun h => walk_of_trusted hnumeric hisNumeric haddr h.2⟩
    by_contra hafter
    exact walk_of_untrusted haddr hright hafter h
  · refine ⟨fun h => absurd h (hfull (by omega) _), ?_⟩
    rintro ⟨⟨all, hall, hle'⟩, -⟩
    -- the scanner finds the same in both ways to read the text
    have hscanned := hscans.scanned le_rfl []
    have hscanned' := hall.scanned le_rfl []
    rw [ScannedParams, if_neg (by simpa using hle)] at hscanned
    rw [ScannedParams, if_pos (by simpa using hle')] at hscanned'
    exact absurd (hscanned _ hscanned') (by simpa using hle')

end

/-- The address of the client is the last address of the list that is not trusted, whatever was sent before the list. For `Forwarded` it is
so exactly if the array has room and there is nothing after the address that is neither trusted nor an address. -/
theorem clientAddress_iff (hnumeric : ∀ addr, p.isNumeric addr = true → ∃ c rest, addr = c :: rest ∧ isLeading c = true)
    (hisNumeric : p.isNumeric addr = true) (haddr : isProxyTrusted p addr = false) :
    (∀ sent list before after, 0 ∉ sent → AddrList list (before ++ addr :: after) → (∀ ip ∈ after, isProxyTrusted p ip = true) →
      xForwardedFor p (sent ++ 44 :: list) = some addr) ∧
    ∀ sent list before after, Balanced sent → 0 ∉ sent → ForwardedElements list (before ++ addr :: after) → 0 ∉ list →
      (∀ ident ∈ after, p.isNumeric ident = true → isProxyTrusted p ident = true) →
      (forwardedAddress p (sent ++ 44 :: list) = .ok (some addr) ↔
        Fits (sent ++ 44 :: list) ∧ ∀ ident ∈ after, isProxyTrusted p ident = true) :=
  ⟨fun _ _ _ _ hnul hlist hafter => xForwardedFor_append hnul hlist hisNumeric haddr hafter,
    fun _ _ _ _ hsent hnul hlist hnul' hright => forwardedAddress_append hnumeric hisNumeric haddr hsent hnul hlist hnul' hright⟩

/-- One trusted proxy. -/
def trustedProxy : ForwardConf Unit where
  forwarder := [(textBytes "10.0.0.1", textBytes "trust")]
  forwardMasks := none
  inetPton := fun _ => none
  isAddrEqBits := fun _ _ _ => false
  isNumeric := fun addr => addr.head?.any isLeading && addr.all isAddrByte

theorem trustedProxy_numeric (addr : Bytes) (h : trustedProxy.isNumeric addr = true) : ∃ c rest, addr = c :: rest ∧ isLeading c = true := by
  cases addr with
  | nil => exact Bool.noConfusion h
  | cons c rest => exact ⟨c, rest, rfl, by simpa using (Bool.and_eq_true_iff.1 h).1⟩

theorem element_token {ident : Bytes} (hne : ident ≠ []) (h : ∀ c ∈ ident, c ≠ 34 ∧ c ≠ 59 ∧ c ≠ 44 ∧ isBlank c = false) :
    ForwardedElement (textBytes "for" ++ 61 :: ident) (some ident) := by
  have hname : ParamName (textBytes "for") := ⟨by decide, forall_of_all⟩
  have hpair : ForwardedPair (textBytes "for") ident (some ident) := .node hname (by decide) (.token hne h)
  have hnil : Blanks [] := nofun
  simpa using ForwardedElement.last hnil hpair hnil

theorem elements_two : ForwardedElements (textBytes "for=1.2.3.4,for=10.0.0.1") [textBytes "1.2.3.4", textBytes "10.0.0.1"] := by
  have hfirst : ForwardedElement _ (some (textBytes "1.2.3.4")) := element_token (by decide) forall_of_all
  have hlast : ForwardedElement _ (some (textBytes "10.0.0.1")) := element_token (by decide) forall_of_all
  exact ForwardedElements.cons hfirst (.last hlast)

theorem addrList_two : AddrList (textBytes "1.2.3.4,10.0.0.1") [textBytes "1.2.3.4", textBytes "10.0.0.1"] := by
  have hnil : Blanks [] := nofun
  have hfirst : AddrText (textBytes "1.2.3.4") := ⟨⟨49, _, rfl, rfl⟩, forall_of_all⟩
  have hlast : AddrText (textBytes "10.0.0.1") := ⟨⟨49, _, rfl, rfl⟩, forall_of_all⟩
  exact AddrList.cons hnil hfirst hnil (.last hnil hlast hnil)

/-- A quoted string that holds a comma. -/
theorem balanced_quoted : Balanced (textBytes "for=\"6.6.6.6,\"") := by
  have hname : Balanced (textBytes "for=") := .of_forall forall_of_all
  have htext : QuotedText (textBytes "6.6.6.6,") := .of_forall forall_of_all
  exact hname.append (.quotes htext .nil)

theorem clientAddress_iff_quoted :
    xForwardedFor trustedProxy (textBytes "6.6.6.6" ++ 44 :: textBytes "1.2.3.4,10.0.0.1") = some (textBytes "1.2.3.4") ∧
    (forwardedAddress trustedProxy (textBytes "for=\"6.6.6.6,\"" ++ 44 :: textBytes "for=1.2.3.4,for=10.0.0.1") =
        .ok (some (textBytes "1.2.3.4")) ↔
      Fits (textBytes "for=\"6.6.6.6,\"" ++ 44 :: textBytes "for=1.2.3.4,for=10.0.0.1") ∧
        ∀ ident ∈ [textBytes "10.0.0.1"], isProxyTrusted trustedProxy ident = true) := by
  have haddress := clientAddress_iff trustedProxy_numeric (show trustedProxy.isNumeric (textBytes "1.2.3.4") = true by decide)
    (by decide)
  exact ⟨haddress.1 _ _ [] [textBytes "10.0.0.1"] (by decide) addrList_two (by decide),
    haddress.2 _ _ [] [textBytes "10.0.0.1"] balanced_quoted (by decide) elements_two (by decide) (by decide)⟩

/-- Enough commas make the loop write behind the end of the array. -/
theorem commas_not_chosen :
    Balanced (List.replicate 256 44) ∧ 0 ∉ List.replicate 256 (44 : UInt8) ∧
    ForwardedElements (textBytes "for=1.2.3.4,for=10.0.0.1") ([] ++ textBytes "1.2.3.4" :: [textBytes "10.0.0.1"]) ∧
    trustedProxy.isNumeric (textBytes "1.2.3.4") = true ∧ isProxyTrusted trustedProxy (textBytes "1.2.3.4") = false ∧
    isProxyTrusted trustedProxy (textBytes "10.0.0.1") = true ∧
    forwardedAddress trustedProxy (44 :: textBytes "for=1.2.3.4,for=10.0.0.1") = .ok (some (textBytes "1.2.3.4")) ∧
    forwardedAddress trustedProxy (List.replicate 256 44 ++ 44 :: textBytes "for=1.2.3.4,for=10.0.0.1") = .error .outOfBounds := by
  refine ⟨.of_forall fun c hc => ?_, by decide, elements_two, by decide, by decide, by decide,
    by decide +kernel, by decide +kernel⟩
  rw [eq_of_mem_replicate hc]
  decide

end Osp.Lighttpd
