/-
# The syscall table

`types.h` and `nums_syscalls.c`, the two files that `get_syscalls.sh` generates, as they stand
in the repository.  Of a table entry the fields that are read are kept; `param1` … `param6`
are six consecutive `int`s, and `print_type` walks them as an array, so they are a list here.
-/
import Ftrace.Lib.CText

namespace Ftrace

open CText

/-! ## 1. The types of parameters -/

namespace ParamTypes

set_option linter.style.nameCheck false

abbrev SSIZE_T : ℤ := 1
abbrev INT : ℤ := 2
abbrev VOID_P : ℤ := 3
abbrev SIZE_T : ℤ := 4
abbrev CONST_VOID_P : ℤ := 5
abbrev CONST_CHAR_P : ℤ := 6
abbrev STRUCT_P : ℤ := 7
abbrev STRUCT_STAT_P : ℤ := 8
abbrev STRUCT_FD_P : ℤ := 9
abbrev NFDS_T : ℤ := 10
abbrev OFF_T : ℤ := 11
abbrev PVOID : ℤ := 12
abbrev VARGS : ℤ := 13
abbrev CONST_STRUCT_IOVEC_P : ℤ := 14
abbrev FD_SET_P : ℤ := 15
abbrev STRUCT_TIMEVAL_P : ℤ := 16
abbrev VOID : ℤ := 17
abbrev UNSIGNED_CHAR_P : ℤ := 18
abbrev KEY_T : ℤ := 19
abbrev STRUCT_SHMID_DS_P : ℤ := 20
abbrev CONST_STRUCT_TIMESPEC_P : ℤ := 21
abbrev STRUCT_TIMESPEC_P : ℤ := 22
abbrev STRUCT_ITIMERVAL_P : ℤ := 23
abbrev UNSIGNED_INT : ℤ := 24
abbrev CONST_STRUCT_ITIMERVAL_P : ℤ := 25
abbrev PID_T : ℤ := 26
abbrev OFF_T_P : ℤ := 27
abbrev CONST_STRUCT_SOCKADDR_P : ℤ := 28
abbrev SOCKLEN_T : ℤ := 29
abbrev STRUCT_SOCKADDR_P : ℤ := 30
abbrev SOCKLEN_T_P : ℤ := 31
abbrev CONST_STRUCT_MSGHDR_P : ℤ := 32
abbrev STRUCT_MSGHDR_P : ℤ := 33
abbrev CHAR_P_CONST : ℤ := 34
abbrev INT_P : ℤ := 35
abbrev STRUCT_RUSAGE_P : ℤ := 36
abbrev STRUCT_UTSNAME_P : ℤ := 37
abbrev STRUCT_SEMBUF_P : ℤ := 38
abbrev UNSIGNED : ℤ := 39
abbrev LONG : ℤ := 40
abbrev STRUCT_MSQID_DS_P : ℤ := 41
abbrev STRUCT_LINUX_DIRENT_P : ℤ := 42
abbrev PCHAR : ℤ := 43
abbrev CHAR_P : ℤ := 44
abbrev MODE_T : ℤ := 45
abbrev UID_T : ℤ := 46
abbrev GID_T : ℤ := 47
abbrev STRUCT_TIMEZONE_P : ℤ := 48
abbrev STRUCT_RLIMIT_P : ℤ := 49
abbrev STRUCT_TMS_P : ℤ := 51
abbrev ENUM_____REQUEST : ℤ := 52
abbrev CONST_GID_T_P : ℤ := 53
abbrev UID_T_P : ℤ := 54
abbrev GID_T_P : ℤ := 55
abbrev CAP_USER_HEADER_T : ℤ := 56
abbrev CAP_USER_DATA_T : ℤ := 57
abbrev CONST_CAP_USER_DATA_T : ℤ := 58
abbrev SIGINFO_T_P : ℤ := 59
abbrev CONST_STACK_T_P : ℤ := 60
abbrev STACK_T_P : ℤ := 61
abbrev CONST_STRUCT_UTIMBUF_P : ℤ := 62
abbrev DEV_T : ℤ := 63
abbrev UNSIGNED_LONG : ℤ := 64
abbrev STRUCT_STATFS_P : ℤ := 65
abbrev CONST_STRUCT_SCHED_PARAM_P : ℤ := 66
abbrev STRUCT_SCHED_PARAM_P : ℤ := 67
abbrev STRUCT_TIMESPEC_P_ : ℤ := 68
abbrev STRUCT____ARGS_P : ℤ := 69
abbrev STRUCT_TIMEX_P : ℤ := 70
abbrev CONST_STRUCT_RLIMIT_P : ℤ := 71
abbrev CONST_STRUCT_TIMEVAL_P : ℤ := 72
abbrev CONST_STRUCT_TIMEZONE_P : ℤ := 73
abbrev CADDR_T : ℤ := 74
abbrev STRUCT_KERNEL_SYM_P : ℤ := 75
abbrev SIZE_T_P : ℤ := 76
abbrev STRUCT_NFSCTL_ARG_P : ℤ := 77
abbrev UNION_NFSCTL_RES_P : ℤ := 78
abbrev OFF64_T : ℤ := 79
abbrev _T___T_P : ℤ := 81
abbrev CPU_SET_T_P : ℤ := 82
abbrev STRUCT_USER_DESC_P : ℤ := 83
abbrev AIO_CONTEXT_T_P : ℤ := 84
abbrev AIO_CONTEXT_T : ℤ := 85
abbrev STRUCT_IO_EVENT_P : ℤ := 86
abbrev STRUCT_IOCB_P : ℤ := 87
abbrev U64 : ℤ := 88
abbrev CLOCKID_T : ℤ := 89
abbrev STRUCT_SIGEVENT_P : ℤ := 90
abbrev TIMER_T_P : ℤ := 91
abbrev TIMER_T : ℤ := 92
abbrev CONST_STRUCT_ITIMERSPEC_P : ℤ := 93
abbrev STRUCT_ITIMERSPEC_P_ : ℤ := 94
abbrev STRUCT_ITIMERSPEC_P : ℤ := 95
abbrev STRUCT_EPOLL_EVENT_P : ℤ := 96
abbrev CONST_STRUCT_TIMEVAL : ℤ := 97
abbrev UNSIGNED_LONG_P : ℤ := 98
abbrev MQD_T : ℤ := 99
abbrev UNSIGNED_P : ℤ := 100
abbrev CONST_STRUCT_SIGEVENT_P : ℤ := 101
abbrev STRUCT_MQ_ATTR_P : ℤ := 102
abbrev STRUCT_KEXEC_SEGMENT_P : ℤ := 103
abbrev IDTYPE_T : ℤ := 104
abbrev ID_T : ℤ := 105
abbrev KEY_SERIAL_T : ℤ := 106
abbrev UINT32_T : ℤ := 107
abbrev CONST_UNSIGNED_LONG_P : ℤ := 108
abbrev STRUCT_POLLFD_P : ℤ := 109
abbrev CONST_SIGSET_T_P : ℤ := 110
abbrev STRUCT_ROBUST_LIST_HEAD_P : ℤ := 111
abbrev LOFF_T_P : ℤ := 112
abbrev CONST_INT_P : ℤ := 113
abbrev CONST_STRUCT_TIMESPEC : ℤ := 114
abbrev STRUCT_PERF_EVENT_ATTR_P : ℤ := 115
abbrev STRUCT_MMSGHDR_P : ℤ := 116
abbrev STRUCT__CACHE_P : ℤ := 117

end ParamTypes

/-! ## 2. The table -/

/-- `t_syscalls`. -/
structure TSyscalls where
  num : ℕ
  name : Text
  nparams : ℕ
  params : List ℤ
  deriving DecidableEq, Repr

open ParamTypes in
/-- `g_syscalls`. -/
def gSyscalls : List TSyscalls :=
  [
    ⟨0, "read".toList, 3, [INT, VOID_P, SIZE_T, 0, 0, 0]⟩,
    ⟨1, "write".toList, 3, [INT, CONST_VOID_P, SIZE_T, 0, 0, 0]⟩,
    ⟨2, "open".toList, 2, [CONST_CHAR_P, INT, 0, 0, 0, 0]⟩,
    ⟨3, "close".toList, 1, [INT, 0, 0, 0, 0, 0]⟩,
    ⟨4, "stat".toList, 2, [CONST_CHAR_P, STRUCT_P, 0, 0, 0, 0]⟩,
    ⟨5, "fstat".toList, 2, [INT, STRUCT_STAT_P, 0, 0, 0, 0]⟩,
    ⟨6, "lstat".toList, 2, [CONST_CHAR_P, STRUCT_STAT_P, 0, 0, 0, 0]⟩,
    ⟨7, "poll".toList, 3, [STRUCT_FD_P, NFDS_T, INT, 0, 0, 0]⟩,
    ⟨8, "lseek".toList, 3, [INT, OFF_T, INT, 0, 0, 0]⟩,
    ⟨9, "mmap".toList, 6, [VOID_P, SIZE_T, INT, INT, INT, OFF_T]⟩,
    ⟨10, "mprotect".toList, 3, [VOID_P, SIZE_T, INT, 0, 0, 0]⟩,
    ⟨11, "munmap".toList, 2, [VOID_P, SIZE_T, 0, 0, 0, 0]⟩,
    ⟨12, "brk".toList, 1, [VOID_P, 0, 0, 0, 0, 0]⟩,
    ⟨13, "rt_sigaction".toList, 6, [0, 0, 0, 0, 0, 0]⟩,
    ⟨14, "rt_sigprocmask".toList, 6, [0, 0, 0, 0, 0, 0]⟩,
    ⟨15, "rt_sigreturn".toList, 6, [0, 0, 0, 0, 0, 0]⟩,
    ⟨16, "ioctl".toList, 3, [INT, INT, VARGS, 0, 0, 0]⟩,
    ⟨17, "pread64".toList, 6, [0, 0, 0, 0, 0, 0]⟩,
    ⟨18, "pwrite64".toList, 6, [0, 0, 0, 0, 0, 0]⟩,
    ⟨19, "readv".toList, 3, [INT, CONST_STRUCT_IOVEC_P, INT, 0, 0, 0]⟩,
    ⟨20, "writev".toList, 3, [INT, CONST_STRUCT_IOVEC_P, INT, 0, 0, 0]⟩,
    ⟨21, "access".toList, 2, [CONST_CHAR_P, INT, 0, 0, 0, 0]⟩,
    ⟨22, "pipe".toList, 1, [INT, 0, 0, 0, 0, 0]⟩,
    ⟨23, "select".toList, 5, [INT, FD_SET_P, FD_SET_P, FD_SET_P, STRUCT_TIMEVAL_P, 0]⟩,
    ⟨24, "sched_yield".toList, 1, [VOID, 0, 0, 0, 0, 0]⟩,
    ⟨25, "mremap".toList, 0, [0, 0, 0, 0, 0, 0]⟩,
    ⟨26, "msync".toList, 3, [VOID_P, SIZE_T, INT, 0, 0, 0]⟩,
    ⟨27, "mincore".toList, 3, [VOID_P, SIZE_T, UNSIGNED_CHAR_P, 0, 0, 0]⟩,
    ⟨28, "madvise".toList, 3, [VOID_P, SIZE_T, INT, 0, 0, 0]⟩,
    ⟨29, "shmget".toList, 3, [KEY_T, SIZE_T, INT, 0, 0, 0]⟩,
    ⟨30, "shmat".toList, 3, [INT, CONST_VOID_P, INT, 0, 0, 0]⟩,
    ⟨31, "shmctl".toList, 3, [INT, INT, STRUCT_SHMID_DS_P, 0, 0, 0]⟩,
    ⟨32, "dup".toList, 1, [INT, 0, 0, 0, 0, 0]⟩,
    ⟨33, "dup2".toList, 2, [INT, INT, 0, 0, 0, 0]⟩,
    ⟨34, "pause".toList, 1, [VOID, 0, 0, 0, 0, 0]⟩,
    ⟨35, "nanosleep".toList, 2, [CONST_STRUCT_TIMESPEC_P, STRUCT_TIMESPEC_P, 0, 0, 0, 0]⟩,
    ⟨36, "getitimer".toList, 2, [INT, STRUCT_ITIMERVAL_P, 0, 0, 0, 0]⟩,
    ⟨37, "alarm".toList, 1, [UNSIGNED_INT, 0, 0, 0, 0, 0]⟩,
    ⟨38, "setitimer".toList, 3, [INT, CONST_STRUCT_ITIMERVAL_P, STRUCT_ITIMERVAL_P, 0, 0, 0]⟩,
    ⟨39, "getpid".toList, 1, [VOID, 0, 0, 0, 0, 0]⟩,
    ⟨40, "sendfile".toList, 4, [INT, INT, OFF_T_P, SIZE_T, 0, 0]⟩,
    ⟨41, "socket".toList, 3, [INT, INT, INT, 0, 0, 0]⟩,
    ⟨42, "connect".toList, 3, [INT, CONST_STRUCT_SOCKADDR_P, SOCKLEN_T, 0, 0, 0]⟩,
    ⟨43, "accept".toList, 3, [INT, STRUCT_SOCKADDR_P, SOCKLEN_T_P, 0, 0, 0]⟩,
    ⟨44, "sendto".toList, 6, [INT, CONST_VOID_P, SIZE_T, INT, CONST_STRUCT_SOCKADDR_P, SOCKLEN_T]⟩,
    ⟨45, "recvfrom".toList, 6, [INT, VOID_P, SIZE_T, INT, STRUCT_SOCKADDR_P, SOCKLEN_T_P]⟩,
    ⟨46, "sendmsg".toList, 3, [INT, CONST_STRUCT_MSGHDR_P, INT, 0, 0, 0]⟩,
    ⟨47, "recvmsg".toList, 3, [INT, STRUCT_MSGHDR_P, INT, 0, 0, 0]⟩,
    ⟨48, "shutdown".toList, 2, [INT, INT, 0, 0, 0, 0]⟩,
    ⟨49, "bind".toList, 3, [INT, CONST_STRUCT_SOCKADDR_P, SOCKLEN_T, 0, 0, 0]⟩,
    ⟨50, "listen".toList, 2, [INT, INT, 0, 0, 0, 0]⟩,
    ⟨51, "getsockname".toList, 3, [INT, STRUCT_SOCKADDR_P, SOCKLEN_T_P, 0, 0, 0]⟩,
    ⟨52, "getpeername".toList, 3, [INT, STRUCT_SOCKADDR_P, SOCKLEN_T_P, 0, 0, 0]⟩,
    ⟨53, "socketpair".toList, 4, [INT, INT, INT, INT, 0, 0]⟩,
    ⟨54, "setsockopt".toList, 5, [INT, INT, INT, CONST_VOID_P, SOCKLEN_T, 0]⟩,
    ⟨55, "getsockopt".toList, 5, [INT, INT, INT, VOID_P, SOCKLEN_T_P, 0]⟩,
    ⟨56, "clone".toList, 0, [0, 0, 0, 0, 0, 0]⟩,
    ⟨57, "fork".toList, 1, [VOID, 0, 0, 0, 0, 0]⟩,
    ⟨58, "vfork".toList, 1, [VOID, 0, 0, 0, 0, 0]⟩,
    ⟨59, "execve".toList, 3, [CONST_CHAR_P, CHAR_P_CONST, CHAR_P_CONST, 0, 0, 0]⟩,
    ⟨60, "exit".toList, 6, [0, 0, 0, 0, 0, 0]⟩,
    ⟨61, "wait4".toList, 4, [PID_T, INT_P, INT, STRUCT_RUSAGE_P, 0, 0]⟩,
    ⟨62, "kill".toList, 2, [PID_T, INT, 0, 0, 0, 0]⟩,
    ⟨63, "uname".toList, 1, [STRUCT_UTSNAME_P, 0, 0, 0, 0, 0]⟩,
    ⟨64, "semget".toList, 3, [KEY_T, INT, INT, 0, 0, 0]⟩,
    ⟨65, "semop".toList, 3, [INT, STRUCT_SEMBUF_P, UNSIGNED, 0, 0, 0]⟩,
    ⟨66, "semctl".toList, 4, [INT, INT, INT, VARGS, 0, 0]⟩,
    ⟨67, "shmdt".toList, 1, [CONST_VOID_P, 0, 0, 0, 0, 0]⟩,
    ⟨68, "msgget".toList, 2, [KEY_T, INT, 0, 0, 0, 0]⟩,
    ⟨69, "msgsnd".toList, 4, [INT, CONST_VOID_P, SIZE_T, INT, 0, 0]⟩,
    ⟨70, "msgrcv".toList, 5, [INT, VOID_P, SIZE_T, LONG, INT, 0]⟩,
    ⟨71, "msgctl".toList, 3, [INT, INT, STRUCT_MSQID_DS_P, 0, 0, 0]⟩,
    ⟨72, "fcntl".toList, 0, [0, 0, 0, 0, 0, 0]⟩,
    ⟨73, "flock".toList, 2, [INT, INT, 0, 0, 0, 0]⟩,
    ⟨74, "fsync".toList, 1, [INT, 0, 0, 0, 0, 0]⟩,
    ⟨75, "fdatasync".toList, 1, [INT, 0, 0, 0, 0, 0]⟩,
    ⟨76, "truncate".toList, 2, [CONST_CHAR_P, OFF_T, 0, 0, 0, 0]⟩,
    ⟨77, "ftruncate".toList, 2, [INT, OFF_T, 0, 0, 0, 0]⟩,
    ⟨78, "getdents".toList, 3, [UNSIGNED_INT, STRUCT_LINUX_DIRENT_P, UNSIGNED_INT, 0, 0, 0]⟩,
    ⟨79, "getcwd".toList, 2, [CHAR_P, SIZE_T, 0, 0, 0, 0]⟩,
    ⟨80, "chdir".toList, 1, [CONST_CHAR_P, 0, 0, 0, 0, 0]⟩,
    ⟨81, "fchdir".toList, 1, [INT, 0, 0, 0, 0, 0]⟩,
    ⟨82, "rename".toList, 2, [CONST_CHAR_P, CONST_CHAR_P, 0, 0, 0, 0]⟩,
    ⟨83, "mkdir".toList, 2, [CONST_CHAR_P, MODE_T, 0, 0, 0, 0]⟩,
    ⟨84, "rmdir".toList, 1, [CONST_CHAR_P, 0, 0, 0, 0, 0]⟩,
    ⟨85, "creat".toList, 2, [CONST_CHAR_P, MODE_T, 0, 0, 0, 0]⟩,
    ⟨86, "link".toList, 2, [CONST_CHAR_P, CONST_CHAR_P, 0, 0, 0, 0]⟩,
    ⟨87, "unlink".toList, 1, [CONST_CHAR_P, 0, 0, 0, 0, 0]⟩,
    ⟨88, "symlink".toList, 2, [CONST_CHAR_P, CONST_CHAR_P, 0, 0, 0, 0]⟩,
    ⟨89, "readlink".toList, 3, [CONST_CHAR_P, CHAR_P, SIZE_T, 0, 0, 0]⟩,
    ⟨90, "chmod".toList, 2, [CONST_CHAR_P, MODE_T, 0, 0, 0, 0]⟩,
    ⟨91, "fchmod".toList, 2, [INT, MODE_T, 0, 0, 0, 0]⟩,
    ⟨92, "chown".toList, 3, [CONST_CHAR_P, UID_T, GID_T, 0, 0, 0]⟩,
    ⟨93, "fchown".toList, 3, [INT, UID_T, GID_T, 0, 0, 0]⟩,
    ⟨94, "lchown".toList, 3, [CONST_CHAR_P, UID_T, GID_T, 0, 0, 0]⟩,
    ⟨95, "umask".toList, 1, [ MODE_T, 0, 0, 0, 0, 0]⟩,
    ⟨96, "gettimeofday".toList, 2, [STRUCT_TIMEVAL_P, STRUCT_TIMEZONE_P, 0, 0, 0, 0]⟩,
    ⟨97, "getrlimit".toList, 2, [INT, STRUCT_RLIMIT_P, 0, 0, 0, 0]⟩,
    ⟨98, "getrusage".toList, 2, [INT, STRUCT_RUSAGE_P, 0, 0, 0, 0]⟩,
    ⟨99, "sysinfo".toList, 1, [STRUCT_P, 0, 0, 0, 0, 0]⟩,
    ⟨100, "times".toList, 1, [STRUCT_TMS_P, 0, 0, 0, 0, 0]⟩,
    ⟨101, "ptrace".toList, 4, [ENUM_____REQUEST, PID_T, VOID_P, VOID_P, 0, 0]⟩,
    ⟨102, "getuid".toList, 1, [VOID, 0, 0, 0, 0, 0]⟩,
    ⟨103, "syslog".toList, 3, [INT, CHAR_P, INT, 0, 0, 0]⟩,
    ⟨104, "getgid".toList, 1, [VOID, 0, 0, 0, 0, 0]⟩,
    ⟨105, "setuid".toList, 1, [UID_T, 0, 0, 0, 0, 0]⟩,
    ⟨106, "setgid".toList, 1, [GID_T, 0, 0, 0, 0, 0]⟩,
    ⟨107, "geteuid".toList, 1, [VOID, 0, 0, 0, 0, 0]⟩,
    ⟨108, "getegid".toList, 1, [VOID, 0, 0, 0, 0, 0]⟩,
    ⟨109, "setpgid".toList, 2, [PID_T, PID_T, 0, 0, 0, 0]⟩,
    ⟨110, "getppid".toList, 1, [VOID, 0, 0, 0, 0, 0]⟩,
    ⟨111, "getpgrp".toList, 0, [0, 0, 0, 0, 0, 0]⟩,
    ⟨112, "setsid".toList, 1, [VOID, 0, 0, 0, 0, 0]⟩,
    ⟨113, "setreuid".toList, 2, [UID_T, UID_T, 0, 0, 0, 0]⟩,
    ⟨114, "setregid".toList, 2, [GID_T, GID_T, 0, 0, 0, 0]⟩,
    ⟨115, "getgroups".toList, 2, [INT, GID_T, 0, 0, 0, 0]⟩,
    ⟨116, "setgroups".toList, 2, [SIZE_T, CONST_GID_T_P, 0, 0, 0, 0]⟩,
    ⟨117, "setresuid".toList, 3, [UID_T, UID_T, UID_T, 0, 0, 0]⟩,
    ⟨118, "getresuid".toList, 3, [UID_T_P, UID_T_P, UID_T_P, 0, 0, 0]⟩,
    ⟨119, "setresgid".toList, 3, [GID_T, GID_T, GID_T, 0, 0, 0]⟩,
    ⟨120, "getresgid".toList, 3, [GID_T_P, GID_T_P, GID_T_P, 0, 0, 0]⟩,
    ⟨121, "getpgid".toList, 1, [PID_T, 0, 0, 0, 0, 0]⟩,
    ⟨122, "setfsuid".toList, 1, [UID_T, 0, 0, 0, 0, 0]⟩,
    ⟨123, "setfsgid".toList, 1, [UID_T, 0, 0, 0, 0, 0]⟩,
    ⟨124, "getsid".toList, 1, [PID_T, 0, 0, 0, 0, 0]⟩,
    ⟨125, "capget".toList, 2, [CAP_USER_HEADER_T, CAP_USER_DATA_T, 0, 0, 0, 0]⟩,
    ⟨126, "capset".toList, 2, [CAP_USER_HEADER_T, CONST_CAP_USER_DATA_T, 0, 0, 0, 0]⟩,
    ⟨127, "rt_sigpending".toList, 6, [0, 0, 0, 0, 0, 0]⟩,
    ⟨128, "rt_sigtimedwait".toList, 6, [0, 0, 0, 0, 0, 0]⟩,
    ⟨129, "rt_sigqueueinfo".toList, 3, [PID_T, INT, SIGINFO_T_P, 0, 0, 0]⟩,
    ⟨130, "rt_sigsuspend".toList, 6, [0, 0, 0, 0, 0, 0]⟩,
    ⟨131, "sigaltstack".toList, 2, [CONST_STACK_T_P, STACK_T_P, 0, 0, 0, 0]⟩,
    ⟨132, "utime".toList, 2, [CONST_CHAR_P, CONST_STRUCT_UTIMBUF_P, 0, 0, 0, 0]⟩,
    ⟨133, "mknod".toList, 3, [CONST_CHAR_P, MODE_T, DEV_T, 0, 0, 0]⟩,
    ⟨134, "uselib".toList, 1, [CONST_CHAR_P, 0, 0, 0, 0, 0]⟩,
    ⟨135, "personality".toList, 1, [UNSIGNED_LONG, 0, 0, 0, 0, 0]⟩,
    ⟨136, "ustat".toList, 2, [DEV_T, STRUCT_P, 0, 0, 0, 0]⟩,
    ⟨137, "statfs".toList, 2, [CONST_CHAR_P, STRUCT_P, 0, 0, 0, 0]⟩,
    ⟨138, "fstatfs".toList, 2, [INT, STRUCT_STATFS_P, 0, 0, 0, 0]⟩,
    ⟨139, "sysfs".toList, 2, [INT, CONST_CHAR_P, 0, 0, 0, 0]⟩,
    ⟨140, "getpriority".toList, 2, [INT, INT, 0, 0, 0, 0]⟩,
    ⟨141, "setpriority".toList, 3, [INT, INT, INT, 0, 0, 0]⟩,
    ⟨142, "sched_setparam".toList, 2, [PID_T, CONST_STRUCT_SCHED_PARAM_P, 0, 0, 0, 0]⟩,
    ⟨143, "sched_getparam".toList, 2, [PID_T, STRUCT_SCHED_PARAM_P, 0, 0, 0, 0]⟩,
    ⟨144, "sched_setscheduler".toList, 3, [PID_T, INT, CONST_STRUCT_SCHED_PARAM_P, 0, 0, 0]⟩,
    ⟨145, "sched_getscheduler".toList, 1, [PID_T, 0, 0, 0, 0, 0]⟩,
    ⟨146, "sched_get_priority_max".toList, 1, [INT, 0, 0, 0, 0, 0]⟩,
    ⟨147, "sched_get_priority_min".toList, 1, [INT, 0, 0, 0, 0, 0]⟩,
    ⟨148, "sched_rr_get_interval".toList, 2, [PID_T, STRUCT_TIMESPEC_P_, 0, 0, 0, 0]⟩,
    ⟨149, "mlock".toList, 2, [CONST_VOID_P, SIZE_T, 0, 0, 0, 0]⟩,
    ⟨150, "munlock".toList, 2, [CONST_VOID_P, SIZE_T, 0, 0, 0, 0]⟩,
    ⟨151, "mlockall".toList, 1, [INT, 0, 0, 0, 0, 0]⟩,
    ⟨152, "munlockall".toList, 1, [VOID, 0, 0, 0, 0, 0]⟩,
    ⟨153, "vhangup".toList, 1, [VOID, 0, 0, 0, 0, 0]⟩,
    ⟨154, "modify_ldt".toList, 3, [INT, VOID_P, UNSIGNED_LONG, 0, 0, 0]⟩,
    ⟨155, "pivot_root".toList, 2, [CONST_CHAR_P, CONST_CHAR_P, 0, 0, 0, 0]⟩,
    ⟨156, "_sysctl".toList, 1, [STRUCT____ARGS_P, 0, 0, 0, 0, 0]⟩,
    ⟨157, "prctl".toList, 5, [INT, UNSIGNED_LONG, UNSIGNED_LONG, UNSIGNED_LONG, UNSIGNED_LONG, 0]⟩,
    ⟨158, "arch_prctl".toList, 2, [INT, UNSIGNED_LONG, 0, 0, 0, 0]⟩,
    ⟨159, "adjtimex".toList, 1, [STRUCT_TIMEX_P, 0, 0, 0, 0, 0]⟩,
    ⟨160, "setrlimit".toList, 2, [INT, CONST_STRUCT_RLIMIT_P, 0, 0, 0, 0]⟩,
    ⟨161, "chroot".toList, 1, [CONST_CHAR_P, 0, 0, 0, 0, 0]⟩,
    ⟨162, "sync".toList, 1, [VOID, 0, 0, 0, 0, 0]⟩,
    ⟨163, "acct".toList, 1, [CONST_CHAR_P, 0, 0, 0, 0, 0]⟩,
    ⟨164, "settimeofday".toList, 2, [CONST_STRUCT_TIMEVAL_P, CONST_STRUCT_TIMEZONE_P, 0, 0, 0, 0]⟩,
    ⟨165, "mount".toList, 5,
      [CONST_CHAR_P, CONST_CHAR_P, CONST_CHAR_P, UNSIGNED_LONG, CONST_VOID_P, 0]⟩,
    ⟨166, "umount2".toList, 2, [CONST_CHAR_P, INT, 0, 0, 0, 0]⟩,
    ⟨167, "swapon".toList, 2, [CONST_CHAR_P, INT, 0, 0, 0, 0]⟩,
    ⟨168, "swapoff".toList, 1, [CONST_CHAR_P, 0, 0, 0, 0, 0]⟩,
    ⟨169, "reboot".toList, 4, [INT, INT, INT, VOID_P, 0, 0]⟩,
    ⟨170, "sethostname".toList, 2, [CONST_CHAR_P, SIZE_T, 0, 0, 0, 0]⟩,
    ⟨171, "setdomainname".toList, 2, [CONST_CHAR_P, SIZE_T, 0, 0, 0, 0]⟩,
    ⟨172, "iopl".toList, 1, [INT, 0, 0, 0, 0, 0]⟩,
    ⟨173, "ioperm".toList, 3, [UNSIGNED_LONG, UNSIGNED_LONG, INT, 0, 0, 0]⟩,
    ⟨174, "create_module".toList, 2, [CONST_CHAR_P, SIZE_T, 0, 0, 0, 0]⟩,
    ⟨175, "init_module".toList, 3, [VOID_P, UNSIGNED_LONG, CONST_CHAR_P, 0, 0, 0]⟩,
    ⟨176, "delete_module".toList, 2, [CONST_CHAR_P, INT, 0, 0, 0, 0]⟩,
    ⟨177, "get_kernel_syms".toList, 1, [STRUCT_KERNEL_SYM_P, 0, 0, 0, 0, 0]⟩,
    ⟨178, "query_module".toList, 5, [CONST_CHAR_P, INT, VOID_P, SIZE_T, SIZE_T_P, 0]⟩,
    ⟨179, "quotactl".toList, 4, [INT, CONST_CHAR_P, INT, CADDR_T, 0, 0]⟩,
    ⟨180, "nfsservctl".toList, 3, [INT, STRUCT_NFSCTL_ARG_P, UNION_NFSCTL_RES_P, 0, 0, 0]⟩,
    ⟨181, "getpmsg".toList, 6, [0, 0, 0, 0, 0, 0]⟩,
    ⟨182, "putpmsg".toList, 6, [0, 0, 0, 0, 0, 0]⟩,
    ⟨183, "afs_syscall".toList, 6, [0, 0, 0, 0, 0, 0]⟩,
    ⟨184, "tuxcall".toList, 6, [0, 0, 0, 0, 0, 0]⟩,
    ⟨185, "security".toList, 6, [0, 0, 0, 0, 0, 0]⟩,
    ⟨186, "gettid".toList, 1, [VOID, 0, 0, 0, 0, 0]⟩,
    ⟨187, "readahead".toList, 3, [INT, OFF64_T, SIZE_T, 0, 0, 0]⟩,
    ⟨188, "setxattr".toList, 6, [0, 0, 0, 0, 0, 0]⟩,
    ⟨189, "lsetxattr".toList, 6, [0, 0, 0, 0, 0, 0]⟩,
    ⟨190, "fsetxattr".toList, 6, [0, 0, 0, 0, 0, 0]⟩,
    ⟨191, "getxattr".toList, 6, [0, 0, 0, 0, 0, 0]⟩,
    ⟨192, "lgetxattr".toList, 6, [0, 0, 0, 0, 0, 0]⟩,
    ⟨193, "fgetxattr".toList, 6, [0, 0, 0, 0, 0, 0]⟩,
    ⟨194, "listxattr".toList, 6, [0, 0, 0, 0, 0, 0]⟩,
    ⟨195, "llistxattr".toList, 6, [0, 0, 0, 0, 0, 0]⟩,
    ⟨196, "flistxattr".toList, 6, [0, 0, 0, 0, 0, 0]⟩,
    ⟨197, "removexattr".toList, 6, [0, 0, 0, 0, 0, 0]⟩,
    ⟨198, "lremovexattr".toList, 6, [0, 0, 0, 0, 0, 0]⟩,
    ⟨199, "fremovexattr".toList, 6, [0, 0, 0, 0, 0, 0]⟩,
    ⟨200, "tkill".toList, 2, [INT, INT, 0, 0, 0, 0]⟩,
    ⟨201, "time".toList, 1, [_T___T_P, 0, 0, 0, 0, 0]⟩,
    ⟨202, "futex".toList, 6, [INT_P, INT, INT, CONST_STRUCT_TIMESPEC_P, INT_P, INT]⟩,
    ⟨203, "sched_setaffinity".toList, 3, [PID_T, SIZE_T, CPU_SET_T_P, 0, 0, 0]⟩,
    ⟨204, "sched_getaffinity".toList, 3, [PID_T, SIZE_T, CPU_SET_T_P, 0, 0, 0]⟩,
    ⟨205, "set_thread_area".toList, 1, [STRUCT_USER_DESC_P, 0, 0, 0, 0, 0]⟩,
    ⟨206, "io_setup".toList, 2, [UNSIGNED, AIO_CONTEXT_T_P, 0, 0, 0, 0]⟩,
    ⟨207, "io_destroy".toList, 1, [AIO_CONTEXT_T, 0, 0, 0, 0, 0]⟩,
    ⟨208, "io_getevents".toList, 5,
      [AIO_CONTEXT_T, LONG, LONG, STRUCT_IO_EVENT_P, STRUCT_TIMESPEC_P, 0]⟩,
    ⟨209, "io_submit".toList, 3, [AIO_CONTEXT_T, LONG, STRUCT_IOCB_P, 0, 0, 0]⟩,
    ⟨210, "io_cancel".toList, 3, [AIO_CONTEXT_T, STRUCT_IOCB_P, STRUCT_IO_EVENT_P, 0, 0, 0]⟩,
    ⟨211, "get_thread_area".toList, 1, [STRUCT_USER_DESC_P, 0, 0, 0, 0, 0]⟩,
    ⟨212, "lookup_dcookie".toList, 3, [U64, CHAR_P, SIZE_T, 0, 0, 0]⟩,
    ⟨213, "epoll_create".toList, 1, [INT, 0, 0, 0, 0, 0]⟩,
    ⟨214, "epoll_ctl_old".toList, 6, [0, 0, 0, 0, 0, 0]⟩,
    ⟨215, "epoll_wait_old".toList, 6, [0, 0, 0, 0, 0, 0]⟩,
    ⟨216, "remap_file_pages".toList, 5, [VOID_P, SIZE_T, INT, SSIZE_T, INT, 0]⟩,
    ⟨217, "getdents64".toList, 6, [0, 0, 0, 0, 0, 0]⟩,
    ⟨218, "set_tid_address".toList, 1, [INT_P, 0, 0, 0, 0, 0]⟩,
    ⟨219, "restart_syscall".toList, 1, [VOID, 0, 0, 0, 0, 0]⟩,
    ⟨220, "semtimedop".toList, 4, [INT, STRUCT_SEMBUF_P, UNSIGNED, STRUCT_TIMESPEC_P, 0, 0]⟩,
    ⟨221, "fadvise64".toList, 6, [0, 0, 0, 0, 0, 0]⟩,
    ⟨222, "timer_create".toList, 3, [CLOCKID_T, STRUCT_SIGEVENT_P, TIMER_T_P, 0, 0, 0]⟩,
    ⟨223, "timer_settime".toList, 4,
      [TIMER_T, INT, CONST_STRUCT_ITIMERSPEC_P, STRUCT_ITIMERSPEC_P_, 0, 0]⟩,
    ⟨224, "timer_gettime".toList, 2, [TIMER_T, STRUCT_ITIMERSPEC_P, 0, 0, 0, 0]⟩,
    ⟨225, "timer_getoverrun".toList, 1, [TIMER_T, 0, 0, 0, 0, 0]⟩,
    ⟨226, "timer_delete".toList, 1, [TIMER_T, 0, 0, 0, 0, 0]⟩,
    ⟨227, "clock_settime".toList, 2, [CLOCKID_T, CONST_STRUCT_TIMESPEC_P, 0, 0, 0, 0]⟩,
    ⟨228, "clock_gettime".toList, 2, [CLOCKID_T, STRUCT_TIMESPEC_P, 0, 0, 0, 0]⟩,
    ⟨229, "clock_getres".toList, 2, [CLOCKID_T, STRUCT_TIMESPEC_P, 0, 0, 0, 0]⟩,
    ⟨230, "clock_nanosleep".toList, 4,
      [CLOCKID_T, INT, CONST_STRUCT_TIMESPEC_P, STRUCT_TIMESPEC_P, 0, 0]⟩,
    ⟨231, "exit_group".toList, 1, [INT, 0, 0, 0, 0, 0]⟩,
    ⟨232, "epoll_wait".toList, 4, [INT, STRUCT_EPOLL_EVENT_P, INT, INT, 0, 0]⟩,
    ⟨233, "epoll_ctl".toList, 4, [INT, INT, INT, STRUCT_EPOLL_EVENT_P, 0, 0]⟩,
    ⟨234, "tgkill".toList, 3, [INT, INT, INT, 0, 0, 0]⟩,
    ⟨235, "utimes".toList, 2, [CONST_CHAR_P, CONST_STRUCT_TIMEVAL, 0, 0, 0, 0]⟩,
    ⟨236, "vserver".toList, 6, [0, 0, 0, 0, 0, 0]⟩,
    ⟨237, "mbind".toList, 6,
      [VOID_P, UNSIGNED_LONG, INT, UNSIGNED_LONG_P, UNSIGNED_LONG, UNSIGNED]⟩,
    ⟨238, "set_mempolicy".toList, 3, [INT, UNSIGNED_LONG_P, UNSIGNED_LONG, 0, 0, 0]⟩,
    ⟨239, "get_mempolicy".toList, 5,
      [INT_P, UNSIGNED_LONG_P, UNSIGNED_LONG, UNSIGNED_LONG, UNSIGNED_LONG, 0]⟩,
    ⟨240, "mq_open".toList, 2, [CONST_CHAR_P, INT, 0, 0, 0, 0]⟩,
    ⟨241, "mq_unlink".toList, 1, [CONST_CHAR_P, 0, 0, 0, 0, 0]⟩,
    ⟨242, "mq_timedsend".toList, 5,
      [MQD_T, CONST_CHAR_P, SIZE_T, UNSIGNED, CONST_STRUCT_TIMESPEC_P, 0]⟩,
    ⟨243, "mq_timedreceive".toList, 5,
      [MQD_T, CHAR_P, SIZE_T, UNSIGNED_P, CONST_STRUCT_TIMESPEC_P, 0]⟩,
    ⟨244, "mq_notify".toList, 2, [MQD_T, CONST_STRUCT_SIGEVENT_P, 0, 0, 0, 0]⟩,
    ⟨245, "mq_getsetattr".toList, 3, [MQD_T, STRUCT_MQ_ATTR_P, STRUCT_MQ_ATTR_P, 0, 0, 0]⟩,
    ⟨246, "kexec_load".toList, 4,
      [UNSIGNED_LONG, UNSIGNED_LONG, STRUCT_KEXEC_SEGMENT_P, UNSIGNED_LONG, 0, 0]⟩,
    ⟨247, "waitid".toList, 4, [IDTYPE_T, ID_T, SIGINFO_T_P, INT, 0, 0]⟩,
    ⟨248, "add_key".toList, 5, [CONST_CHAR_P, CONST_CHAR_P, CONST_VOID_P, SIZE_T, KEY_SERIAL_T, 0]⟩,
    ⟨249, "request_key".toList, 4, [CONST_CHAR_P, CONST_CHAR_P, CONST_CHAR_P, KEY_SERIAL_T, 0, 0]⟩,
    ⟨250, "keyctl".toList, 2, [INT, VARGS, 0, 0, 0, 0]⟩,
    ⟨251, "ioprio_set".toList, 3, [INT, INT, INT, 0, 0, 0]⟩,
    ⟨252, "ioprio_get".toList, 2, [INT, INT, 0, 0, 0, 0]⟩,
    ⟨253, "inotify_init".toList, 1, [VOID, 0, 0, 0, 0, 0]⟩,
    ⟨254, "inotify_add_watch".toList, 3, [INT, CONST_CHAR_P, UINT32_T, 0, 0, 0]⟩,
    ⟨255, "inotify_rm_watch".toList, 2, [INT, INT, 0, 0, 0, 0]⟩,
    ⟨256, "migrate_pages".toList, 4,
      [INT, UNSIGNED_LONG, CONST_UNSIGNED_LONG_P, CONST_UNSIGNED_LONG_P, 0, 0]⟩,
    ⟨257, "openat".toList, 3, [INT, CONST_CHAR_P, INT, 0, 0, 0]⟩,
    ⟨258, "mkdirat".toList, 3, [INT, CONST_CHAR_P, MODE_T, 0, 0, 0]⟩,
    ⟨259, "mknodat".toList, 4, [INT, CONST_CHAR_P, MODE_T, DEV_T, 0, 0]⟩,
    ⟨260, "fchownat".toList, 5, [INT, CONST_CHAR_P, UID_T, GID_T, INT, 0]⟩,
    ⟨261, "futimesat".toList, 3, [INT, CONST_CHAR_P, CONST_STRUCT_TIMEVAL, 0, 0, 0]⟩,
    ⟨262, "newfstatat".toList, 6, [0, 0, 0, 0, 0, 0]⟩,
    ⟨263, "unlinkat".toList, 3, [INT, CONST_CHAR_P, INT, 0, 0, 0]⟩,
    ⟨264, "renameat".toList, 4, [INT, CONST_CHAR_P, INT, CONST_CHAR_P, 0, 0]⟩,
    ⟨265, "linkat".toList, 5, [INT, CONST_CHAR_P, INT, CONST_CHAR_P, INT, 0]⟩,
    ⟨266, "symlinkat".toList, 3, [CONST_CHAR_P, INT, CONST_CHAR_P, 0, 0, 0]⟩,
    ⟨267, "readlinkat".toList, 4, [INT, CONST_CHAR_P, CHAR_P, SIZE_T, 0, 0]⟩,
    ⟨268, "fchmodat".toList, 4, [INT, CONST_CHAR_P, MODE_T, INT, 0, 0]⟩,
    ⟨269, "faccessat".toList, 4, [INT, CONST_CHAR_P, INT, INT, 0, 0]⟩,
    ⟨270, "pselect6".toList, 6, [0, 0, 0, 0, 0, 0]⟩,
    ⟨271, "ppoll".toList, 4,
      [STRUCT_POLLFD_P, NFDS_T, CONST_STRUCT_TIMESPEC_P, CONST_SIGSET_T_P, 0, 0]⟩,
    ⟨272, "unshare".toList, 1, [INT, 0, 0, 0, 0, 0]⟩,
    ⟨273, "set_robust_list".toList, 2, [STRUCT_ROBUST_LIST_HEAD_P, SIZE_T, 0, 0, 0, 0]⟩,
    ⟨274, "get_robust_list".toList, 3, [INT, STRUCT_ROBUST_LIST_HEAD_P, SIZE_T_P, 0, 0, 0]⟩,
    ⟨275, "splice".toList, 6, [INT, LOFF_T_P, INT, LOFF_T_P, SIZE_T, UNSIGNED_INT]⟩,
    ⟨276, "tee".toList, 4, [INT, INT, SIZE_T, UNSIGNED_INT, 0, 0]⟩,
    ⟨277, "sync_file_range".toList, 4, [INT, OFF64_T, OFF64_T, UNSIGNED_INT, 0, 0]⟩,
    ⟨278, "vmsplice".toList, 4, [INT, CONST_STRUCT_IOVEC_P, UNSIGNED_LONG, UNSIGNED_INT, 0, 0]⟩,
    ⟨279, "move_pages".toList, 6, [INT, UNSIGNED_LONG, VOID_P, CONST_INT_P, INT_P, INT]⟩,
    ⟨280, "utimensat".toList, 4, [INT, CONST_CHAR_P, CONST_STRUCT_TIMESPEC, INT, 0, 0]⟩,
    ⟨281, "epoll_pwait".toList, 5, [INT, STRUCT_EPOLL_EVENT_P, INT, INT, CONST_SIGSET_T_P, 0]⟩,
    ⟨282, "signalfd".toList, 3, [INT, CONST_SIGSET_T_P, INT, 0, 0, 0]⟩,
    ⟨283, "timerfd_create".toList, 2, [INT, INT, 0, 0, 0, 0]⟩,
    ⟨284, "eventfd".toList, 2, [UNSIGNED_INT, INT, 0, 0, 0, 0]⟩,
    ⟨285, "fallocate".toList, 4, [INT, INT, OFF_T, OFF_T, 0, 0]⟩,
    ⟨286, "timerfd_settime".toList, 4,
      [INT, INT, CONST_STRUCT_ITIMERSPEC_P, STRUCT_ITIMERSPEC_P, 0, 0]⟩,
    ⟨287, "timerfd_gettime".toList, 2, [INT, STRUCT_ITIMERSPEC_P, 0, 0, 0, 0]⟩,
    ⟨288, "accept4".toList, 4, [INT, STRUCT_SOCKADDR_P, SOCKLEN_T_P, INT, 0, 0]⟩,
    ⟨289, "signalfd4".toList, 6, [0, 0, 0, 0, 0, 0]⟩,
    ⟨290, "eventfd2".toList, 6, [0, 0, 0, 0, 0, 0]⟩,
    ⟨291, "epoll_create1".toList, 1, [INT, 0, 0, 0, 0, 0]⟩,
    ⟨292, "dup3".toList, 3, [INT, INT, INT, 0, 0, 0]⟩,
    ⟨293, "pipe2".toList, 2, [INT, INT, 0, 0, 0, 0]⟩,
    ⟨294, "inotify_init1".toList, 1, [INT, 0, 0, 0, 0, 0]⟩,
    ⟨295, "preadv".toList, 4, [INT, CONST_STRUCT_IOVEC_P, INT, OFF_T, 0, 0]⟩,
    ⟨296, "pwritev".toList, 4, [INT, CONST_STRUCT_IOVEC_P, INT, OFF_T, 0, 0]⟩,
    ⟨297, "rt_tgsigqueueinfo".toList, 4, [PID_T, PID_T, INT, SIGINFO_T_P, 0, 0]⟩,
    ⟨298, "perf_event_open".toList, 5,
      [STRUCT_PERF_EVENT_ATTR_P, PID_T, INT, INT, UNSIGNED_LONG, 0]⟩,
    ⟨299, "recvmmsg".toList, 5,
      [INT, STRUCT_MMSGHDR_P, UNSIGNED_INT, UNSIGNED_INT, STRUCT_TIMESPEC_P, 0]⟩,
    ⟨300, "fanotify_init".toList, 6, [0, 0, 0, 0, 0, 0]⟩,
    ⟨301, "fanotify_mark".toList, 6, [0, 0, 0, 0, 0, 0]⟩,
    ⟨302, "prlimit64".toList, 6, [0, 0, 0, 0, 0, 0]⟩,
    ⟨303, "name_to_handle_at".toList, 6, [0, 0, 0, 0, 0, 0]⟩,
    ⟨304, "open_by_handle_at".toList, 6, [0, 0, 0, 0, 0, 0]⟩,
    ⟨305, "clock_adjtime".toList, 6, [0, 0, 0, 0, 0, 0]⟩,
    ⟨306, "syncfs".toList, 1, [INT, 0, 0, 0, 0, 0]⟩,
    ⟨307, "sendmmsg".toList, 4, [INT, STRUCT_MMSGHDR_P, UNSIGNED_INT, UNSIGNED_INT, 0, 0]⟩,
    ⟨308, "setns".toList, 2, [INT, INT, 0, 0, 0, 0]⟩,
    ⟨309, "getcpu".toList, 3, [UNSIGNED_P, UNSIGNED_P, STRUCT__CACHE_P, 0, 0, 0]⟩,
    ⟨310, "process_vm_readv".toList, 6,
      [PID_T, CONST_STRUCT_IOVEC_P, UNSIGNED_LONG, CONST_STRUCT_IOVEC_P, UNSIGNED_LONG, UNSIGNED_LONG]⟩,
    ⟨311, "process_vm_writev".toList, 6,
      [PID_T, CONST_STRUCT_IOVEC_P, UNSIGNED_LONG, CONST_STRUCT_IOVEC_P, UNSIGNED_LONG, UNSIGNED_LONG]⟩,
    ⟨312, "kcmp".toList, 5, [PID_T, PID_T, INT, UNSIGNED_LONG, UNSIGNED_LONG, 0]⟩,
    ⟨313, "finit_module".toList, 3, [INT, CONST_CHAR_P, INT, 0, 0, 0]⟩,
    ⟨314, "sched_setattr".toList, 6, [0, 0, 0, 0, 0, 0]⟩,
    ⟨315, "sched_getattr".toList, 6, [0, 0, 0, 0, 0, 0]⟩,
    ⟨316, "renameat2".toList, 6, [0, 0, 0, 0, 0, 0]⟩,
    ⟨317, "seccomp".toList, 6, [0, 0, 0, 0, 0, 0]⟩,
    ⟨318, "getrandom".toList, 6, [0, 0, 0, 0, 0, 0]⟩,
    ⟨319, "memfd_create".toList, 6, [0, 0, 0, 0, 0, 0]⟩,
    ⟨320, "kexec_file_load".toList, 6, [0, 0, 0, 0, 0, 0]⟩,
    ⟨321, "bpf".toList, 6, [0, 0, 0, 0, 0, 0]⟩,
    ⟨322, "execveat".toList, 6, [0, 0, 0, 0, 0, 0]⟩
  ]

/-- `is_syscall_defined`: the position of the entry with this number. -/
def isSyscallDefined (tab : List TSyscalls) (num : ℕ) : Option ℕ :=
  tab.findIdx? fun e => e.num = num

/-- In this table every entry stands at the position of its own number. -/
theorem gSyscalls_num : gSyscalls.map TSyscalls.num = List.range gSyscalls.length := by
  decide +kernel

/-- Each entry has six parameter slots and uses at most that many. -/
theorem gSyscalls_params : ∀ e ∈ gSyscalls, e.params.length = 6 ∧ e.nparams ≤ 6 ∧
    e.name ≠ [] ∧ nul ∉ e.name := by
  decide +kernel

end Ftrace
