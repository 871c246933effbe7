import CommandConsole.Dictionary

/-!
# System commands

Which names the console tries as programs: the names on a list, paths, and names that
end like a script or an executable.
-/

namespace CommandConsole

/-- Programs that are tried without being configured. -/
def defaultPrograms : List String := [
  "ls", "cat", "grep", "egrep", "find", "head", "tail", "wc", "sort", "uniq", "cut", "tr",
  "sed", "awk", "diff", "file", "stat", "touch", "cp", "mv", "rm", "mkdir", "rmdir", "chmod",
  "ln", "du", "df", "tee", "xargs", "seq", "printf", "xxd", "hexdump", "od", "base64",
  "md5sum", "sha256sum", "tar", "gzip", "gunzip", "zip", "unzip", "less", "more",
  "ps", "top", "uname", "whoami", "hostname", "date", "env", "which", "uptime", "id", "sh",
  "bash", "zsh",
  "ping", "traceroute", "tracepath", "curl", "wget", "nslookup", "dig", "host", "netstat",
  "ss", "ip", "ifconfig", "arp", "route", "nmap", "tcpdump", "tshark", "openssl", "ssh", "scp",
  "sftp", "telnet", "nc", "ncat", "socat", "mosquitto_pub", "mosquitto_sub", "grpcurl",
  "websocat",
  "mysql", "psql", "redis-cli", "mongosh", "sqlite3", "python", "python3", "node", "npm",
  "git", "make", "cargo", "docker", "kubectl"]

/-- Endings that mark a name as something to execute. -/
def executableEndings : List String := ["sh", "bash", "py", "exe", "bat", "cmd", "ps1"]

/-- The ending of a file name: what follows its last dot, if something stands before it. -/
def fileEnding? (name : String) : Option String :=
  let behind := name.toList.reverse.takeWhile (· ≠ '.')
  match name.toList.reverse.drop behind.length with
  | _ :: _ :: _ => some (String.ofList behind.reverse)
  | _ => none

/-- The names that are tried as programs. -/
structure AllowList where
  names : Dictionary Unit

namespace AllowList

/-- The list with more names on it. -/
def adding (l : AllowList) (names : List String) : AllowList :=
  ⟨names.foldl (fun m name => m.insert name ()) l.names⟩

/-- The list without a name. -/
def empty : AllowList := ⟨.empty⟩

/-- The default list. -/
def default : AllowList := empty.adding defaultPrograms

/-- Whether a name is tried as a program. -/
def accepts (l : AllowList) (name : String) : Bool :=
  !name.isEmpty &&
    (l.names.contains name || name.toList.contains '/' ||
      match fileEnding? name with
      | some ending => executableEndings.contains (String.ofList (ending.toList.map Char.toLower))
      | none => false)

/-- The names on the list, ascending. -/
def known (l : AllowList) : List String := l.names.names

end AllowList

end CommandConsole
