import AdbncFs.Text.Arrays
import AdbncFs.Text.Number

/-!
# Permissions of the user on the device

`UserInfo` of `userInfo.cpp`: the user as read from the output of `id`, and the permission
bits of a file against this user.
-/

namespace AdbncFs

open Text

/-! ## The constants of `sys/stat.h`, `unistd.h` and `errno.h` -/

/-- The bits of the owner, of the group and of the others. -/
def S_IRWXU : Nat := 0o700
def S_IRWXG : Nat := 0o070
def S_IRWXO : Nat := 0o007

/-- The masks of `access`. -/
def F_OK : Nat := 0
def X_OK : Nat := 1
def W_OK : Nat := 2
def R_OK : Nat := 4

/-- The errors that the code looks at or returns. -/
def ENOENT : Int := 2
def EIO : Int := 5
def EBADF : Int := 9
def EACCES : Int := 13
def EEXIST : Int := 17
def ENOSYS : Int := 38

/-- The user as the busybox applet `id` describes it. -/
structure UserInfo where
  m_iUid : Int
  m_iGid : Int
  m_Groups : List Int

namespace UserInfo

/-- The loop over the group list, which is kept in a set. -/
def insertGroups (u : UserInfo) (save : Str) : UserInfo :=
  { u with
    m_Groups :=
      (strtokAll [','] save).foldl (fun groups pch => groups.insert (atoi pch)) u.m_Groups }

/-- The last part of `parseUserInfoString`: the token `pch` and the text behind it. -/
def parseGroups (u : UserInfo) (pch save : Str) : UserInfo :=
  if pch = "groups".toList then u.insertGroups save else u

/-- The tokens that `parseUserInfoString` cuts out of its array. The constructor leaves `m_iUid`
and `m_iGid` uninitialized, so what is not read keeps the value that it has in `u`. -/
def readTokens (u : UserInfo) (acTokens : Str) : UserInfo :=
  match strtok_r ['=', ' '] acTokens with
  | none => u
  | some (pch, save) =>
    if pch ≠ "uid".toList then u.parseGroups pch save
    else
      match strtok_r ['=', ' '] save with
      | none => u
      | some (pch, save) =>
        let u := { u with m_iUid := atoi pch }
        match strtok_r ['=', ' '] save with
        | none => u
        | some (pch, save) =>
          if pch ≠ "gid".toList then u.parseGroups pch save
          else
            match strtok_r ['=', ' '] save with
            | none => u
            | some (pch, save) =>
              let u := { u with m_iGid := atoi pch }
              match strtok_r ['=', ' '] save with
              | none => u
              | some (pch, save) => u.parseGroups pch save

/-- `parseUserInfoString`, or `none` where its behaviour is undefined: there is no array for the
line, or `strtok_r` gets one without NUL. -/
def parseUserInfoString (u : UserInfo) (pcUserInfo : Str) : Option UserInfo := do
  let iLen := sizeToInt ((c_str pcUserInfo).length + 1)
  let acTokens ← copyString iLen (c_str pcUserInfo)
  return u.readTokens acTokens

/-- The group is the user's own or one of the list. -/
def belongs2Group (u : UserInfo) (iGuid : Int) : Bool := u.m_iGid = iGuid ∨ iGuid ∈ u.m_Groups

/-- 0 if all bits of the mask are set in the mode, `EACCES` otherwise. -/
def testAccesss (iMode iMask : Nat) : Int :=
  let iTestMode := iMode &&& iMask
  if iTestMode = iMask then 0 else EACCES

/-- The permission bits of the owner, the group or the others, whichever the user is, against the
mask. The source first sets the result for root and then overwrites it in each branch. -/
def access (u : UserInfo) (iUid iGid : Int) (uiRawMode iMask : Nat) : Int :=
  if u.m_iUid = iUid then testAccesss ((uiRawMode &&& S_IRWXU) >>> 6) iMask
  else if u.belongs2Group iGid then testAccesss ((uiRawMode &&& S_IRWXG) >>> 3) iMask
  else testAccesss (uiRawMode &&& S_IRWXO) iMask

end UserInfo

end AdbncFs
