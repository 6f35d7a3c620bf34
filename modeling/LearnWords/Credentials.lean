import LearnWords.Json
import Mathlib.Data.List.DropRight

/-!
# LearnWords.Credentials

`systemd::credentials_storage`, the directory in which systemd leaves the
service's secrets, and `systemd::credential`, one of its files, which is read up
to its trailing white space: a secret is usually written with a newline behind
it, and the token is a part of the path of every request.

What white space is, is a parameter.
-/

namespace LearnWords

/-! ## a credential -/

/-- `credential`, a file that is mapped. -/
structure Credential where
  source : Bytes

namespace Credential

variable (isSpace : UInt8 → Bool) (c : Credential)

/-- The loop of `credential::end`, from `ret` downwards. -/
def endFrom : (ret : Nat) → ret ≤ c.source.length → Nat
  | 0, _ => 0
  | ret + 1, h => if isSpace c.source[ret] then endFrom ret (Nat.le_of_succ_le h) else ret + 1

/-- `credential::end`, as an offset. -/
def end_ : Nat := c.endFrom isSpace c.source.length le_rfl

/-- `credential::operator std::string`. -/
def toString : Bytes := c.source.take (c.end_ isSpace)

end Credential

/-! ## the directory -/

/-- What stands under a name in the directory. -/
inductive CredentialFile where
  /-- no regular file -/
  | absent
  /-- a file that cannot be examined or mapped -/
  | unreadable (what : String)
  | mapped (source : Bytes)

/-- What the environment variable `CREDENTIALS_DIRECTORY` names. -/
inductive CredentialsDirectory where
  | unset
  | notDirectory
  /-- a path that cannot be examined -/
  | unexaminable (what : String)
  | directory (files : String → CredentialFile)

/-- `credentials_storage`. -/
structure CredentialsStorage where
  files : String → CredentialFile

/-- `credentials_storage::operator()`; examining or mapping a file may raise. -/
def CredentialsStorage.get (s : CredentialsStorage) (key : String) :
    Except String (Option Credential) :=
  match s.files key with
  | .absent => .ok none
  | .unreadable what => .error what
  | .mapped source => .ok (some ⟨source⟩)

/-- `make_credentials_storage`; examining the path may raise. -/
def makeCredentialsStorage : CredentialsDirectory → Except String (Option CredentialsStorage)
  | .unset | .notDirectory => .ok none
  | .unexaminable what => .error what
  | .directory files => .ok (some ⟨files⟩)

/-! ## what is read -/

namespace Credential

variable (isSpace : UInt8 → Bool) (c : Credential)

/-- The loop drops the white space at the end of what is before it. -/
theorem take_endFrom (ret : Nat) (h : ret ≤ c.source.length) :
    c.source.take (c.endFrom isSpace ret h) = (c.source.take ret).rdropWhile isSpace := by
  induction ret with
  | zero => simp [endFrom]
  | succ ret ih =>
      have hsplit : c.source.take (ret + 1) = c.source.take ret ++ [c.source[ret]] :=
        (List.take_append_getElem h).symm
      by_cases hspace : isSpace c.source[ret] = true
      · rw [endFrom, if_pos hspace, ih, hsplit, List.rdropWhile_concat_pos _ _ _ hspace]
      · rw [endFrom, if_neg hspace, hsplit, List.rdropWhile_concat_neg _ _ _ hspace]

theorem toString_eq : c.toString isSpace = c.source.rdropWhile isSpace := by
  rw [toString, end_, take_endFrom, List.take_length]

/-- What is read does not end in white space. -/
theorem isSpace_last {b : UInt8} (hb : b ∈ (c.toString isSpace).getLast?) : isSpace b = false := by
  rw [toString_eq] at hb
  obtain ⟨hne, hlast⟩ := List.mem_getLast?_eq_getLast hb
  have hnot := List.rdropWhile_last_not isSpace c.source hne
  simpa [hlast] using hnot

/-- Nothing is read of white space. -/
theorem toString_eq_nil : c.toString isSpace = [] ↔ ∀ b ∈ c.source, isSpace b = true := by
  rw [toString_eq, List.rdropWhile_eq_nil_iff]

/-- White space behind a text is not read. -/
theorem rdropWhile_append {text ws : Bytes} (hws : ∀ b ∈ ws, isSpace b = true) :
    (text ++ ws).rdropWhile isSpace = text.rdropWhile isSpace := by
  induction ws using List.reverseRecOn with
  | nil => rw [List.append_nil]
  | append_singleton ws b ih =>
      have hb : isSpace b = true := hws b (by simp)
      rw [← List.append_assoc, List.rdropWhile_concat_pos _ _ _ hb]
      exact ih fun x hx => hws x (by simp [hx])

/-- **Reading**: what is read is what the file begins with, up to white space
only, and it does not end in white space. -/
theorem toString_eq_iff (isSpace : UInt8 → Bool) (c : Credential) (secret : Bytes) :
    c.toString isSpace = secret ↔
      (∃ ws, c.source = secret ++ ws ∧ ∀ b ∈ ws, isSpace b = true) ∧
        ∀ b ∈ secret.getLast?, isSpace b = false := by
  constructor
  · rintro rfl
    refine ⟨⟨c.source.rtakeWhile isSpace, ?_, fun b hb => List.mem_rtakeWhile_imp hb⟩,
      fun b hb => isSpace_last isSpace c hb⟩
    rw [toString_eq, List.rdropWhile_append_rtakeWhile]
  · rintro ⟨⟨ws, hsource, hws⟩, hlast⟩
    rw [toString_eq, hsource, rdropWhile_append isSpace hws, List.rdropWhile_eq_self_iff]
    intro hne
    simp [hlast _ (List.getLast?_eq_some_getLast hne)]

end Credential

end LearnWords
