import Millennium.Engine.RequestPaused
import Millennium.Lib.Fields

/-!
# Which pages scripts are put into

`target_url` answers from three tables of domains whether a page may be touched. A host belongs to a
domain if the labels of the domain are its last labels. How libcurl reads a URL and what a hook's
pattern makes of it is left open.
-/

namespace Millennium.Engine

open Bytes Fields List

def steamTlds : List Octets :=
  ["steampowered.com", "steamcommunity.com", "steamgames.com", "steam-chat.com",
    "steamstatic.com"].map ascii

def steamLoopback : Octets := ascii "steamloopback.host"

section
variable {Pattern : Type} (w : HookWorld Pattern)

def isSteamOwned (url : Octets) : Bool :=
  match targetUrl w url with
  | none => false
  | some (_, host) => host == steamLoopback || steamTlds.any (isDomainMatch host)

def anyHookMatches (url : Octets) : List (Hook Pattern) → Except HookError Bool
  | [] => .ok false
  | hook :: rest => do
    if ← thrown (w.regexMatch url hook.urlPattern) then .ok true else anyHookMatches url rest

def allowsWebkitInjection (url : Octets) (hooks : List (Hook Pattern)) : Except HookError Bool :=
  match targetUrl w url with
  | none => .ok false
  | some (_, host) =>
    if isSafeForJs w url = false then .ok false
    else if host = steamLoopback then .ok false
    else if isSteamOwned w url then .ok true
    else anyHookMatches w url hooks

end

def labels (host : Octets) : List Octets := host.splitOn 46

lemma isDomainMatch_eq_true_iff {host domain : Octets} : isDomainMatch host domain = true ↔
    host = domain ∨ ∃ front, host = front ++ 46 :: domain := by
  rw [isDomainMatch, Bool.or_eq_true, beq_iff_eq, Bool.and_eq_true, Bool.and_eq_true,
    decide_eq_true_eq, beq_iff_eq, isSuffixOf_iff_suffix]
  refine or_congr_right ?_
  constructor
  · rintro ⟨⟨hlen, hdot⟩, front, rfl⟩
    have hfront : front ≠ [] := by
      rintro rfl
      exact Nat.lt_irrefl _ hlen
    obtain ⟨front, c, rfl⟩ := (eq_nil_or_concat' front).resolve_left hfront
    have hindex : (front ++ [c] ++ domain).length - domain.length - 1 = front.length := by
      simp only [length_append, length_singleton]
      omega
    rw [hindex, append_assoc, getElem?_append_right (Nat.le_refl _), Nat.sub_self] at hdot
    have hc : c = 46 := Option.some.inj hdot
    exact ⟨front, by rw [hc, append_assoc]; rfl⟩
  · rintro ⟨front, rfl⟩
    have hindex : (front ++ 46 :: domain).length - domain.length - 1 = front.length := by
      simp only [length_append, length_cons]
      omega
    refine ⟨⟨?_, ?_⟩, front ++ [46], by simp⟩
    · simp only [length_append, length_cons]
      omega
    · rw [hindex, getElem?_append_right (Nat.le_refl _), Nat.sub_self]
      rfl

lemma isDomainMatch_iff_labels (host domain : Octets) :
    isDomainMatch host domain = true ↔ labels domain <:+ labels host :=
  isDomainMatch_eq_true_iff.trans splitOn_suffix_iff.symm

def Forbidden (host : Octets) : Prop :=
  ∃ domain ∈ ascii "checkout.steampowered.com" :: forbiddenDomains, labels domain <:+ labels host

lemma Forbidden.getLast?_ne_dot {host : Octets} (h : Forbidden host) : host.getLast? ≠ some 46 := by
  obtain ⟨domain, hdomain, hsuffix⟩ := h
  have hall : (ascii "checkout.steampowered.com" :: forbiddenDomains).all
      (fun domain => domain.getLast?.any (· != 46)) = true := by decide +kernel
  obtain ⟨c, hc, hne⟩ := Option.any_eq_true _ _ |>.mp (all_eq_true.mp hall domain hdomain)
  have hlast : host.getLast? = some c := by
    rcases splitOn_suffix_iff.mp hsuffix with rfl | ⟨front, rfl⟩
    · exact hc
    · rw [getLast?_append, getLast?_cons, hc]
      rfl
  rw [hlast]
  simpa using hne

lemma lowered_eq_dot_iff (c : UInt8) :
    UInt8.ofNat (Char.ofNat c.toNat).toLower.toNat = 0x2E ↔ c = 0x2E := by
  have hall : ∀ n < 256, UInt8.ofNat (Char.ofNat n).toLower.toNat = 0x2E ↔ n = 46 := by
    decide +kernel
  rw [hall c.toNat c.toNat_lt, ← UInt8.toNat_inj]
  rfl

lemma lowered_rdropWhile (host : Octets) :
    lowered (host.rdropWhile (· = 0x2E)) = (lowered host).rdropWhile (· = 0x2E) := by
  simp only [lowered, List.rdropWhile, ← map_reverse, dropWhile_map, Function.comp_def,
    lowered_eq_dot_iff]

lemma lowered_without_dots {given host : Octets} {dots : Nat} (hlast : host.getLast? ≠ some 46)
    (h : lowered given = host ++ List.replicate dots 46) :
    lowered (given.rdropWhile (· = 0x2E)) = host := by
  rw [lowered_rdropWhile, h]
  clear h
  induction dots with
  | zero =>
    rw [replicate_zero, append_nil, rdropWhile_eq_self_iff]
    intro hne hdot
    exact hlast (by rw [getLast?_eq_some_getLast hne, of_decide_eq_true hdot])
  | succ dots ih =>
    rw [replicate_succ', ← append_assoc, rdropWhile_concat_pos _ _ _ (by decide), ih]

section
variable {Pattern : Type} {w : HookWorld Pattern}

lemma isSafeForJs_of_forbidden {url scheme host : Octets}
    (htarget : targetUrl w url = some (scheme, host)) (h : Forbidden host) :
    isSafeForJs w url = false := by
  obtain ⟨domain, hdomain, hsuffix⟩ := h
  have hmatch := (isDomainMatch_iff_labels host domain).mpr hsuffix
  rw [isSafeForJs, isSafeForNetworkHooks, htarget]
  rcases mem_cons.mp hdomain with rfl | hdomain
  · simp [hmatch]
  · have hall : (forbiddenDomains.all fun domain => !isDomainMatch host domain) = false :=
      all_eq_false.mpr ⟨domain, hdomain, by simp [hmatch]⟩
    simp [hall]

/-- A domain is matched by its labels, and a page of a forbidden domain gets no scripts, whatever
the patterns of the hooks match. -/
theorem forbidden_never_injected (w : HookWorld Pattern) :
    (∀ host domain, isDomainMatch host domain = true ↔ labels domain <:+ labels host) ∧
      ∀ url scheme given host dots, w.parseUrl url = some (scheme, given) →
        lowered given = host ++ List.replicate dots 46 → Forbidden host →
          ∀ hooks, allowsWebkitInjection w url hooks = .ok false := by
  refine ⟨isDomainMatch_iff_labels, ?_⟩
  intro url scheme given host dots hparse hlowered hforbidden hooks
  have htarget : targetUrl w url = some (lowered scheme, host) := by
    rw [targetUrl, hparse, Option.map_some]
    dsimp only
    rw [lowered_without_dots hforbidden.getLast?_ne_dot hlowered]
  rw [allowsWebkitInjection, htarget]
  exact if_pos (isSafeForJs_of_forbidden htarget hforbidden)

end

/-- A shop of a forbidden domain, in capital letters and with a dot at the end. -/
def shopWorld : HookWorld Unit :=
  { slowBody with parseUrl := fun _ => some (ascii "https", ascii "Shop.PayPal.com.") }

theorem shop_never_injected : allowsWebkitInjection shopWorld (ascii "https://Shop.PayPal.com./")
      [⟨ascii "a.js", (), .javascript⟩] = .ok false := by
  have hforbidden : Forbidden (ascii "shop.paypal.com") :=
    ⟨ascii "paypal.com", by decide, by decide +kernel⟩
  exact (forbidden_never_injected shopWorld).2 _ _ _ _ 1 rfl (by decide +kernel) hforbidden _

end Millennium.Engine
