import Osp.Websocketpp.Uri

/-!
# URIs that are printed and read again

A host is printed without the brackets that it may have had, so that a colon in it is taken for the one before the port.
-/

namespace Osp.Websocketpp

open Lib List Option

variable {scheme rest : Bytes} {secure : Bool}

theorem readScheme_append (h : (scheme, secure) ∈ schemes) (hne : rest ≠ []) :
    readScheme (scheme ++ textBytes "://" ++ rest) = some (scheme, secure, rest) := by
  obtain ⟨c, rest, rfl⟩ := exists_cons_of_ne_nil hne
  simp only [schemes, mem_cons, Prod.mk.injEq, not_mem_nil, or_false] at h
  rcases h with ⟨rfl, rfl⟩ | ⟨rfl, rfl⟩ | ⟨rfl, rfl⟩ | ⟨rfl, rfl⟩ <;> simp [readScheme, schemes, textBytes]

/-- Nothing is read if nothing follows the scheme. -/
theorem readScheme_nil (h : (scheme, secure) ∈ schemes) : readScheme (scheme ++ textBytes "://" ++ []) = none := by
  simp only [schemes, mem_cons, Prod.mk.injEq, not_mem_nil, or_false] at h
  rcases h with ⟨rfl, rfl⟩ | ⟨rfl, rfl⟩ | ⟨rfl, rfl⟩ | ⟨rfl, rfl⟩ <;> decide

/-- A host that is read again as it was printed has no colon and no slash, and does not begin with a bracket. -/
theorem plain_of_readHost {host after : Bytes} {c : UInt8} (h : readHost (host ++ c :: rest) = some (host, after))
    (hc : isHostChar c = false) : (∀ c ∈ host, isHostChar c = true) ∧ host.head? ≠ some 91 := by
  have hbracket : c ≠ 91 := by
    rintro rfl
    cases hc
  unfold readHost at h
  split at h
  · rename_i hhead
    cases host with
    | nil => exact absurd (Option.some.inj hhead) hbracket
    | cons b host =>
      obtain rfl : b = 91 := Option.some.inj hhead
      -- the text up to the closing bracket is the host without its first byte, and what was printed after it
      have happend : (host ++ [c]) ++ rest = (91 :: host) ++ (93 :: after) := by simpa using search_eq_append h
      have heq := append_inj_left happend (by simp)
      have hcount := congrArg (List.count c) heq
      simp [hbracket.symm] at hcount
  · rename_i hhead
    obtain ⟨hhost, -⟩ := Prod.mk.inj (Option.some.inj h)
    refine ⟨fun b hb => mem_takeWhile_imp (hhost ▸ hb), fun hfirst => hhead ?_⟩
    rw [List.head?_append, hfirst]
    rfl

namespace Uri

variable {u : Uri} {s : Bytes}

/-- A URI that was read. -/
structure Valid (u : Uri) : Prop where
  scheme : (u.scheme, u.secure) ∈ schemes
  port : 0 < u.port ∧ u.port ≤ 65535
  resource : ∃ rest, u.resource = 47 :: rest

theorem valid_of_parse (h : parse s = some u) : u.Valid := by
  simp only [parse, bind_eq_bind, bind_eq_some_iff, Prod.exists] at h
  obtain ⟨scheme, secure, s₁, hscheme, host, s₂, -, text, s₃, -, port, hport, hu⟩ := h
  obtain rfl := Option.some.inj hu
  have hrange : 0 < port ∧ port ≤ 65535 := by
    unfold getPortFromString at hport
    split at hport
    · obtain rfl := Option.some.inj hport
      cases secure <;> decide
    · simp only [ite_none_left_eq_some, Option.some.injEq] at hport
      omega
  obtain ⟨entry, hmem, hread⟩ := exists_of_findSome?_eq_some hscheme
  simp only [ite_none_right_eq_some, Option.some.injEq, Prod.mk.injEq] at hread
  obtain ⟨-, rfl, rfl, -⟩ := hread
  exact ⟨hmem, hrange, s₃, rfl⟩

/-- The port is read as it was printed. -/
theorem readPort_portText (hu : u.Valid) (hrest : rest = [] ∨ ∃ more, rest = 47 :: more) :
    ∃ text, readPort (u.portText ++ rest) = some (text, rest.tail) ∧ getPortFromString u.secure text = some u.port := by
  by_cases hdefault : u.port = defaultPort u.secure
  · refine ⟨[], ?_, ?_⟩
    · rw [portText, if_pos hdefault]
      rcases hrest with rfl | ⟨more, rfl⟩ <;> rfl
    · rw [getPortFromString, if_pos rfl, hdefault]
  · obtain ⟨hvalue, hne, hdigits⟩ := decimalBytes_spec u.port
    have hstop : ∀ c, rest.head? = some c → decide (c ≠ 47) = false := by
      rcases hrest with rfl | ⟨more, rfl⟩ <;> simp
    have hslash : ∀ c ∈ decimalBytes u.port, decide (c ≠ 47) = true := by
      refine fun c hc => decide_eq_true ?_
      rintro rfl
      exact absurd (hdigits 47 hc) (by decide)
    refine ⟨decimalBytes u.port, ?_, ?_⟩
    · rw [portText, if_neg hdefault, cons_append, readPort, takeWhile_append_of_head hslash hstop,
        dropWhile_append_of_head hslash hstop, drop_one]
    · have hport := hu.port
      have hnat : (((min u.port (2 ^ 63 - 1) : Nat) : Int) % 2 ^ 32).toNat = u.port := by omega
      rw [getPortFromString, if_neg hne, strtoll_of_digits hne hdigits, hvalue]
      simp only [hnat]
      rw [if_neg (by omega)]

/-- A host without colon and slash that does not begin with a bracket is read as it was printed, before a resource or none. -/
theorem parse_print (hu : u.Valid) (hplain : ∀ c ∈ u.host, isHostChar c = true) (hhead : u.host.head? ≠ some 91)
    (hrest : rest = [] ∨ ∃ more, rest = 47 :: more) (hne : u.host ++ u.portText ++ rest ≠ []) :
    parse (u.scheme ++ textBytes "://" ++ (u.host ++ u.portText ++ rest)) = some { u with resource := 47 :: rest.tail } := by
  obtain ⟨text, hread, hport⟩ := readPort_portText hu hrest
  have hstop : ∀ c, (u.portText ++ rest).head? = some c → isHostChar c = false := by
    unfold portText
    split <;> rcases hrest with rfl | ⟨more, rfl⟩ <;> simp [isHostChar]
  have hbracket : (u.host ++ (u.portText ++ rest)).head? ≠ some 91 := by
    rw [List.head?_append]
    cases hhost : u.host.head? with
    | some c => simpa [hhost] using hhead
    | none => exact fun heq => absurd (hstop 91 heq) (by decide)
  have hhost : readHost (u.host ++ (u.portText ++ rest)) = some (u.host, u.portText ++ rest) := by
    rw [readHost, if_neg hbracket, takeWhile_append_of_head hplain hstop, dropWhile_append_of_head hplain hstop]
  rw [parse, readScheme_append hu.scheme hne, append_assoc]
  simp [hhost, hread, hport]

/-- A URI that was read gives itself when it is printed and read again, and `get_host_port` gives its host and port, if and only if the
host has no colon and no slash and does not begin with a bracket, and there is something to print. -/
theorem parse_str_iff (s : Bytes) (u : Uri) (h : parse s = some u) :
    (parse u.str = some u ∧
      ∃ v, parse (u.scheme ++ textBytes "://" ++ u.getHostPort) = some v ∧ v.host = u.host ∧ v.port = u.port) ↔
    (∀ c ∈ u.host, isHostChar c = true) ∧ u.host.head? ≠ some 91 ∧ u.getHostPort ≠ [] := by
  have hu := valid_of_parse h
  obtain ⟨rest, hrest⟩ := hu.resource
  have hne : u.host ++ u.portText ++ u.resource ≠ [] := by simp [hrest]
  constructor
  · rintro ⟨hstr, v, hv, -⟩
    obtain ⟨c, more, hprinted, hc⟩ : ∃ c more, u.portText ++ u.resource = c :: more ∧ isHostChar c = false := by
      rw [portText, hrest]
      split
      · exact ⟨47, rest, rfl, rfl⟩
      · exact ⟨58, _, rfl, rfl⟩
    rw [str, parse, readScheme_append hu.scheme hne, append_assoc, hprinted] at hstr
    simp only [bind_eq_bind, bind_some, bind_eq_some_iff, Prod.exists] at hstr
    obtain ⟨host, after, hhost, _, _, -, _, -, heq⟩ := hstr
    obtain rfl : host = u.host := congrArg Uri.host (Option.some.inj heq)
    obtain ⟨hplain, hhead⟩ := plain_of_readHost hhost hc
    refine ⟨hplain, hhead, fun hnil => ?_⟩
    rw [hnil, parse, readScheme_nil hu.scheme] at hv
    cases hv
  · rintro ⟨hplain, hhead, hnil⟩
    refine ⟨?_, { u with resource := [47] }, ?_, rfl, rfl⟩
    · rw [str, parse_print hu hplain hhead (.inr ⟨rest, hrest⟩) hne, hrest, tail_cons, ← hrest]
    · have hprint := parse_print hu hplain hhead (.inl rfl) (by rwa [append_nil])
      rwa [append_nil] at hprint

/-- `ws://a/b`. -/
theorem parse_str_iff_plain : parse (str ⟨textBytes "ws", false, [97], 80, [47, 98]⟩) = some ⟨textBytes "ws", false, [97], 80, [47, 98]⟩ :=
  ((parse_str_iff (textBytes "ws://a/b") _ (by decide)).2 ⟨by simp [isHostChar], by decide, by decide⟩).1

/-- `ws://[::1]/` is printed as `ws://::1/`, which is no valid URI. -/
theorem parse_str_brackets : ∃ u, parse (textBytes "ws://[::1]/") = some u ∧ parse u.str = none :=
  ⟨⟨textBytes "ws", false, textBytes "::1", 80, [47]⟩, by decide, by decide⟩

end Uri

end Osp.Websocketpp
